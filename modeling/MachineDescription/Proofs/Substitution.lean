import MachineDescription.Function
import MachineDescription.Proofs.Dependence
import MachineDescription.Proofs.FieldBits

namespace MachineDescription

namespace Expr

mutual

/-- Put a constant in the place of every parameter that has a value. -/
def substitute (value? : String → Option Value) : Expr → Expr
  | const v => const v
  | ref .parameter name =>
    match value? name.simple with
    | some v => const v
    | none => ref .parameter name
  | ref .field name => ref .field name
  | ref .access name => ref .access name
  | read resource address => read resource (substituteAll value? address)
  | unary op operand => unary op (operand.substitute value?)
  | binary op lhs rhs => binary op (lhs.substitute value?) (rhs.substitute value?)
  | logical op lhs rhs => logical op (lhs.substitute value?) (rhs.substitute value?)
  | slice operand s => slice (operand.substitute value?) s
  | resize mode operand ty => resize mode (operand.substitute value?) ty
  | concat high low => concat (high.substitute value?) (low.substitute value?)
  | select condition whenTrue otherwise =>
    select (condition.substitute value?) (whenTrue.substitute value?)
      (otherwise.substitute value?)

def substituteAll (value? : String → Option Value) : List Expr → List Expr
  | [] => []
  | e :: rest => e.substitute value? :: substituteAll value? rest

end

end Expr

/-- Take the values of parameters from elsewhere first. -/
def Bindings.withParameters (bindings : Bindings) (value? : String → Option Value) : Bindings where
  value? scope name :=
    match scope with
    | .parameter => (value? name).or (bindings.value? .parameter name)
    | .field => bindings.value? .field name
    | .access => bindings.value? .access name

theorem Bindings.ext {bindings bindings' : Bindings}
    (same : ∀ scope name, bindings.value? scope name = bindings'.value? scope name) :
    bindings = bindings' := by
  cases bindings
  cases bindings'
  exact congrArg Bindings.mk (funext fun scope => funext fun name => same scope name)

namespace Expr

variable {σ : Type} {reader : Reader σ} {bindings : Bindings} {value? : String → Option Value}

theorem evalAll_substituteAll {address : List Expr}
    (each : ∀ e ∈ address, (e.substitute value?).eval reader bindings =
      e.eval reader (bindings.withParameters value?)) :
    evalAll reader bindings (substituteAll value? address) =
      evalAll reader (bindings.withParameters value?) address := by
  induction address with
  | nil => rfl
  | cons e rest ih =>
    obtain ⟨first, later⟩ := List.forall_mem_cons.mp each
    rw [substituteAll, evalAll, evalAll, first, ih later]

/-- To write values into an expression is to add them to the bindings. -/
theorem eval_substitute (e : Expr) :
    (e.substitute value?).eval reader bindings =
      e.eval reader (bindings.withParameters value?) := by
  induction e with
  | const v => rfl
  | ref scope name =>
    cases scope with
    | field => rfl
    | access => rfl
    | parameter =>
      cases found : value? name.simple with
      | some v => simp only [substitute, eval, Bindings.withParameters, found, Option.some_or]
      | none => simp only [substitute, eval, Bindings.withParameters, found, Option.none_or]
  | read resource address ih => rw [substitute, eval, eval, evalAll_substituteAll ih]
  | unary op operand ih => rw [substitute, eval, eval, ih]
  | binary op lhs rhs ihLeft ihRight => rw [substitute, eval, eval, ihLeft, ihRight]
  | logical op lhs rhs ihLeft ihRight => rw [substitute, eval, eval, ihLeft, ihRight]
  | slice operand s ih => rw [substitute, eval, eval, ih]
  | resize mode operand ty ih => rw [substitute, eval, eval, ih]
  | concat high low ihHigh ihLow => rw [substitute, eval, eval, ihHigh, ihLow]
  | select condition whenTrue otherwise ihTest ihTrue ihFalse =>
    rw [substitute, eval, eval, ihTest, ihTrue, ihFalse]

end Expr

namespace Parameter

/-- The argument for the parameter of a name, retagged to the type of the parameter. -/
def argument? (params : List Parameter) (args : List Value) (name : String) : Option Value :=
  ((params.zip args).find? (·.1.name.simple == name)).bind fun entry =>
    (entry.2.retag entry.1.ty).toOption

theorem argument?_eq_none {params : List Parameter} {name : String}
    (absent : name ∉ params.map (·.name.simple)) (args : List Value) :
    argument? params args name = none := by
  have missing : (params.zip args).find? (·.1.name.simple == name) = none := by
    refine List.find?_eq_none.mpr fun entry member found => absent ?_
    rw [← beq_iff_eq.mp found]
    exact List.mem_map_of_mem (List.of_mem_zip member).1
  rw [argument?, missing, Option.bind_none]

/-- The first parameter of a name gets its argument, tagged with the type of the parameter. -/
theorem argument?_cons {p : Parameter} {arg v : Value} (tagged : arg.retag p.ty = .ok v)
    (params : List Parameter) (args : List Value) (name : String) :
    argument? (p :: params) (arg :: args) name =
      if p.name.simple = name then some v else argument? params args name := by
  rw [argument?, List.zip_cons_cons]
  split
  · rename_i here
    rw [List.find?_cons_of_pos (by simp [here]), Option.bind_some, tagged]
    rfl
  · rename_i elsewhere
    rw [List.find?_cons_of_neg (by simp [elsewhere]), argument?]

/-- The first parameter is bound before the others, which do not have its name. -/
theorem withParameters_cons {p : Parameter} {arg v : Value} {params : List Parameter}
    (tagged : arg.retag p.ty = .ok v) (absent : p.name.simple ∉ params.map (·.name.simple))
    (args : List Value) (bindings : Bindings) :
    (bindings.bind .parameter p.name.simple v).withParameters (argument? params args) =
      bindings.withParameters (argument? (p :: params) (arg :: args)) := by
  refine Bindings.ext fun scope name => ?_
  cases scope with
  | field => rfl
  | access => rfl
  | parameter =>
    simp only [Bindings.withParameters, Bindings.bind, argument?_cons tagged, true_and]
    by_cases here : p.name.simple = name
    · subst here
      rw [argument?_eq_none absent, Option.none_or, if_pos rfl, if_pos rfl, Option.some_or]
    · rw [if_neg here, if_neg (Ne.symm here)]

/-- Arguments of the right number and widths can be bound. -/
theorem bindAll_eq_ok (definition : Name) {params : List Parameter} {args : List Value}
    (distinct : (params.map (·.name.simple)).Nodup) (count : params.length = args.length)
    (widths : ∀ entry ∈ params.zip args, entry.2.ty.sameWidth entry.1.ty = true)
    (bindings : Bindings) :
    bindAll definition params args bindings =
      .ok (bindings.withParameters (argument? params args)) := by
  rw [bindAll, if_pos count]
  induction params generalizing args bindings with
  | nil => exact congrArg Except.ok (Bindings.ext fun scope _ => by cases scope <;> rfl)
  | cons p params ih =>
    cases args with
    | nil => cases count
    | cons arg args =>
      obtain ⟨first, later⟩ := List.forall_mem_cons.mp widths
      obtain ⟨absent, rest⟩ := List.nodup_cons.mp distinct
      obtain ⟨v, tagged⟩ : ∃ v, arg.retag p.ty = .ok v :=
        ⟨_, dif_pos (DataType.sameWidth_iff.mp first)⟩
      rw [← withParameters_cons tagged absent, List.zip_cons_cons, List.foldlM_cons]
      simp only [tagged]
      exact ih rest (Nat.succ.inj count) later _

end Parameter

theorem Run.run_inDefinition {σ α : Type} (name : Name) (x : Run σ α) (s : σ) :
    (Run.inDefinition name x).run s =
      ((x.run s).1.mapError (·.withDefinition name), (x.run s).2) := rfl

namespace Function

variable {σ : Type}

/-- What a function makes of the outcome of its body. -/
def conclude (f : Function) : Except Error Value → Except Error Value
  | .ok v =>
    match v.retag f.result with
    | .ok result => .ok result
    | .error _ => .error (.about f.name (.expr (.resultType f.result v.ty)))
  | .error err => .error (err.withDefinition f.name)

/-- The body is evaluated by the reader alone; what the function adds is done to its outcome. -/
theorem run_evaluate (f : Function) (reader : Reader σ) (bindings : Bindings) (s : σ) :
    (f.evaluate reader bindings).run s =
      (f.conclude ((f.body.eval reader bindings).run s).1,
        ((f.body.eval reader bindings).run s).2) := by
  rw [evaluate, Run.run_bind, Run.run_inDefinition]
  obtain ⟨outcome, t⟩ := (f.body.eval reader bindings).run s
  cases outcome with
  | error err => rfl
  | ok v =>
    simp only [Except.mapError, conclude]
    cases v.retag f.result <;> rfl

/-- The result is tagged with the type of the function. -/
theorem conclude_of_width_eq {f : Function} {v : Value} (same : v.width = f.result.width) :
    ∃ result, f.conclude (.ok v) = .ok result ∧ result.ty = f.result ∧
      result.pattern = v.pattern := by
  obtain ⟨result, tagged⟩ : ∃ result, v.retag f.result = .ok result := ⟨_, dif_pos same⟩
  obtain ⟨_, type, bits⟩ := Value.retag_eq_ok_iff.mp tagged
  refine ⟨result, ?_, type, bits⟩
  rw [conclude, tagged]

theorem conclude_of_width_ne {f : Function} {v : Value} (other : v.width ≠ f.result.width) :
    f.conclude (.ok v) = .error (.about f.name (.expr (.resultType f.result v.ty))) := by
  have failed : v.retag f.result = Value.refuse (.cannotRetag v f.result) := dif_neg other
  rw [conclude, failed, Value.refuse]

theorem ty_of_conclude {f : Function} {outcome : Except Error Value} {v : Value}
    (concluded : f.conclude outcome = .ok v) : v.ty = f.result := by
  cases outcome with
  | error err => cases concluded
  | ok body =>
    by_cases same : body.width = f.result.width
    · obtain ⟨result, made, type, _⟩ := conclude_of_width_eq same
      rw [concluded] at made
      cases made
      exact type
    · rw [conclude_of_width_ne same] at concluded
      cases concluded

/-- A call binds the arguments over nothing and evaluates without a reader. -/
theorem call_eq (f : Function) (args : List Value) :
    f.call args =
      f.bind args .empty >>= fun bound => ((f.evaluate Reader.none bound).run ()).1 := by
  rw [call, apply, Run.run_bind]
  cases f.bind args .empty with
  | error err => rfl
  | ok bound => rfl

theorem ty_of_call {f : Function} {args : List Value} {v : Value} (called : f.call args = .ok v) :
    v.ty = f.result := by
  rw [call_eq] at called
  cases bound : f.bind args .empty with
  | error err =>
    rw [bound] at called
    cases called
  | ok bindings =>
    rw [bound] at called
    change ((f.evaluate Reader.none bindings).run ()).1 = .ok v at called
    rw [run_evaluate] at called
    exact ty_of_conclude called

/-- Arguments of the right number and widths can be bound to parameters of different names, and the
body then goes the way of the body that they are written into: the same result, the same state of
the reader and the same calls to it. The value of a body is retagged to the declared type if it has
that width and is a mismatch of types if not; an error of a body only gets the function as its
context, with the place of the function if it has none. A call is such an evaluation, of arguments
bound to nothing else and without access to resources, so what it yields is of the declared type. -/
theorem evaluate_substituted (f : Function) :
    ((f.params.map (·.name.simple)).Nodup → ∀ args : List Value,
      f.params.length = args.length →
      (∀ entry ∈ f.params.zip args, entry.2.ty.sameWidth entry.1.ty = true) →
      ∀ bindings : Bindings, ∃ bound, f.bind args bindings = .ok bound ∧
        ∀ {σ : Type} (reader : Reader σ) (s : σ),
          (f.body.eval reader bound).run s =
              ((f.body.substitute (Parameter.argument? f.params args)).eval reader bindings).run s ∧
            f.body.calls reader bound s =
              (f.body.substitute (Parameter.argument? f.params args)).calls reader bindings s) ∧
    (∀ {σ : Type} (reader : Reader σ) (bindings : Bindings) (s t : σ),
      (∀ v, (f.body.eval reader bindings).run s = (.ok v, t) →
        (v.ty.sameWidth f.result = true → ∃ result,
          (f.evaluate reader bindings).run s = (.ok result, t) ∧
            result.ty = f.result ∧ result.pattern = v.pattern) ∧
        (v.ty.sameWidth f.result = false → ∃ err,
          (f.evaluate reader bindings).run s = (.error err, t) ∧ err.kind = .typeMismatch)) ∧
      ∀ err, (f.body.eval reader bindings).run s = (.error err, t) →
        (f.evaluate reader bindings).run s =
          (.error ⟨err.cause, err.context ++ [(Error.definitionKey, f.name.qualified)],
            err.span.or f.name.span⟩, t)) ∧
    ∀ args, f.call args =
        (f.bind args .empty >>= fun bound => ((f.evaluate Reader.none bound).run ()).1) ∧
      ∀ v, f.call args = .ok v → v.ty = f.result := by
  refine ⟨?_, ?_, fun args => ⟨f.call_eq args, fun v => ty_of_call⟩⟩
  · intro distinct args count widths bindings
    refine ⟨_, Parameter.bindAll_eq_ok f.name distinct count widths bindings, fun reader s => ?_⟩
    rw [Expr.calls, Expr.calls, Expr.eval_substitute, Expr.eval_substitute]
    exact ⟨rfl, rfl⟩
  · intro σ reader bindings s t
    refine ⟨fun v evaluated => ⟨fun same => ?_, fun other => ?_⟩, fun err failed => ?_⟩
    · obtain ⟨result, made, type, bits⟩ := conclude_of_width_eq (DataType.sameWidth_iff.mp same)
      exact ⟨result, by rw [run_evaluate, evaluated, made], type, bits⟩
    · have differ : v.width ≠ f.result.width := by
        intro same
        rw [DataType.sameWidth_iff.mpr same] at other
        cases other
      exact ⟨_, by rw [run_evaluate, evaluated, conclude_of_width_ne differ], rfl⟩
    · rw [run_evaluate, failed]
      rfl

end Function

/-- The sum of the parameter `x` and the field `x` above the register that the parameter `y`
names. -/
def Function.load : Function where
  name := .ofParts ["F"]
  params := [⟨.ofParts ["x"], .uint 4⟩, ⟨.ofParts ["F", "y"], .bits 2⟩]
  result := .uint 8
  body :=
    .concat (.binary .add (.ref .parameter (.ofParts ["x"])) (.ref .field (.ofParts ["x"])))
      (.read (.ofParts ["X"]) [.ref .parameter (.ofParts ["y"])])

/-- A parameter and a field of one name. -/
def Bindings.hidden : Bindings :=
  (empty.bind .parameter "x" (.wrap (.uint 4) 9)).bind .field "x" (.wrap (.uint 4) 1)

def Function.loadArguments : List Value :=
  [.wrap (.sint 4) 5, .wrap (.uint 2) 2]

/-- The parameter under a type of the same width. -/
def Function.signedView : Function where
  name := .ofParts ["S"]
  params := [⟨.ofParts ["x"], .uint 8⟩]
  result := .sint 8
  body := .ref .parameter (.ofParts ["x"])

/-- The argument hides the parameter `x` of the outer bindings; the field `x` keeps its value. -/
theorem Function.evaluate_substituted_load :
    (∃ bound, load.bind loadArguments .hidden = .ok bound ∧
      ∀ s, (load.body.eval (Cell.reader Cell.registers) bound).run s =
        ((load.body.substitute (Parameter.argument? load.params loadArguments)).eval
          (Cell.reader Cell.registers) .hidden).run s) ∧
      ((load.apply (Cell.reader Cell.registers) loadArguments .hidden).run []).1 =
        .ok (.wrap (.uint 8) 0x67) ∧
      (∃ err, (load.evaluate Reader.none .hidden).run () = (.error err, ()) ∧
        err.contextValue? "definition" = some "F") ∧
      ∃ v, signedView.call [.wrap (.bits 8) 200] = .ok v ∧ v.signed = -56 ∧ v.ty = .sint 8 := by
  have law := evaluate_substituted load
  refine ⟨?_, rfl, ?_, ?_⟩
  · obtain ⟨bound, made, same⟩ := law.1 (by decide) loadArguments rfl (by decide) .hidden
    exact ⟨bound, made, fun s => (same _ s).1⟩
  · exact ⟨_, (law.2.1 Reader.none .hidden () ()).2 _ rfl, rfl⟩
  · have called : signedView.call [.wrap (.bits 8) 200] = .ok (.wrap (.sint 8) 200) := rfl
    exact ⟨_, called, by decide, ((evaluate_substituted signedView).2.2 _).2 _ called⟩

end MachineDescription
