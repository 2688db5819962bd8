import MachineDescription.Expr.Eval

namespace MachineDescription

/-- Structural induction; an address is taken as a list of parts. -/
@[elab_as_elim, induction_eliminator]
theorem Expr.induction {motive : Expr → Prop} (const : ∀ v, motive (.const v))
    (ref : ∀ scope name, motive (.ref scope name))
    (read : ∀ resource address, (∀ e ∈ address, motive e) → motive (.read resource address))
    (unary : ∀ op operand, motive operand → motive (.unary op operand))
    (binary : ∀ op lhs rhs, motive lhs → motive rhs → motive (.binary op lhs rhs))
    (logical : ∀ op lhs rhs, motive lhs → motive rhs → motive (.logical op lhs rhs))
    (slice : ∀ operand s, motive operand → motive (.slice operand s))
    (resize : ∀ mode operand ty, motive operand → motive (.resize mode operand ty))
    (concat : ∀ high low, motive high → motive low → motive (.concat high low))
    (select : ∀ condition whenTrue otherwise, motive condition → motive whenTrue →
      motive otherwise → motive (.select condition whenTrue otherwise)) (e : Expr) : motive e :=
  @Expr.rec motive (fun address => ∀ e ∈ address, motive e) const ref read unary binary logical
    slice resize concat select (fun _ member => (nomatch member))
    (fun _ _ first rest => List.forall_mem_cons.mpr ⟨first, rest⟩) e

namespace Run

variable {σ τ α β : Type}

theorem run_bind (x : Run σ α) (f : α → Run σ β) (s : σ) :
    (x >>= f).run s =
      match x.run s with
      | (.ok a, t) => (f a).run t
      | (.error e, t) => (.error e, t) := by
  change (match x.run s with | (a, t) => (ExceptT.bindCont f a).run t) = _
  cases x.run s with
  | mk result t => cases result <;> rfl

/-- From related states the runs have the same result, and they leave related states. -/
def Related (R : σ → τ → Prop) (x : Run σ α) (y : Run τ α) : Prop :=
  ∀ s t, R s t → (x.run s).1 = (y.run t).1 ∧ R (x.run s).2 (y.run t).2

namespace Related

variable {R : σ → τ → Prop}

theorem pure (a : α) : Related R (pure a) (pure a) :=
  fun _ _ related => ⟨rfl, related⟩

theorem throw (e : Error) : Related R (throw e : Run σ α) (throw e) :=
  fun _ _ related => ⟨rfl, related⟩

theorem lift (x : Except Error α) : Related R (liftM x) (liftM x) :=
  fun _ _ related => ⟨rfl, related⟩

/-- Runs that go the same way one after the other go the same way together. -/
theorem bind {x : Run σ α} {y : Run τ α} {f : α → Run σ β} {g : α → Run τ β}
    (first : Related R x y) (next : ∀ a, Related R (f a) (g a)) :
    Related R (x >>= f) (y >>= g) := by
  intro s t related
  obtain ⟨same, after⟩ := first s t related
  rw [run_bind, run_bind]
  revert same after
  obtain ⟨left, s'⟩ := x.run s
  obtain ⟨right, t'⟩ := y.run t
  rintro rfl after
  cases left with
  | error e => exact ⟨rfl, after⟩
  | ok a => exact next a s' t' after

end Related

end Run

namespace Expr

/-- The parts that an expression is made of, in the order of evaluation. -/
def children : Expr → List Expr
  | const _ | ref _ _ => []
  | read _ address => address
  | unary _ operand | slice operand _ | resize _ operand _ => [operand]
  | binary _ lhs rhs | logical _ lhs rhs | concat lhs rhs => [lhs, rhs]
  | select condition whenTrue otherwise => [condition, whenTrue, otherwise]

theorem mem_referencesAll {scope : Scope} {address : List Expr} {name : Name} :
    name ∈ referencesAll scope address ↔ ∃ e ∈ address, name ∈ e.references scope := by
  induction address with
  | nil => simp [referencesAll]
  | cons e rest ih => simp [referencesAll, ih]

theorem mem_resourcesAll {address : List Expr} {resource : Name} :
    resource ∈ resourcesAll address ↔ ∃ e ∈ address, resource ∈ e.resources := by
  induction address with
  | nil => simp [resourcesAll]
  | cons e rest ih => simp [resourcesAll, ih]

theorem mem_references_of_child {e child : Expr} (inside : child ∈ e.children) {scope : Scope}
    {name : Name} (member : name ∈ child.references scope) : name ∈ e.references scope := by
  cases e with
  | const | ref => cases inside
  | read resource address => exact mem_referencesAll.mpr ⟨child, inside, member⟩
  | unary | slice | resize =>
    cases List.mem_singleton.mp inside
    exact member
  | binary | logical | concat | select =>
    simp only [children, List.mem_cons, List.not_mem_nil, or_false] at inside
    simp only [references, List.mem_append]
    grind

theorem mem_resources_of_child {e child : Expr} (inside : child ∈ e.children) {resource : Name}
    (member : resource ∈ child.resources) : resource ∈ e.resources := by
  cases e with
  | const | ref => cases inside
  | read other address =>
    exact List.mem_cons_of_mem _ (mem_resourcesAll.mpr ⟨child, inside, member⟩)
  | unary | slice | resize =>
    cases List.mem_singleton.mp inside
    exact member
  | binary | logical | concat | select =>
    simp only [children, List.mem_cons, List.not_mem_nil, or_false] at inside
    simp only [resources, List.mem_append]
    grind

section Related

variable {σ τ : Type} {reader : Reader σ} {reader' : Reader τ} {bindings bindings' : Bindings}
  {R : σ → τ → Prop}

/-- Two sides have the same values for the names in an expression, and their readers answer alike to
its reads. -/
structure SameInputs (R : σ → τ → Prop) (reader : Reader σ) (reader' : Reader τ)
    (bindings bindings' : Bindings) (e : Expr) : Prop where
  names : ∀ scope, ∀ name ∈ e.references scope,
    bindings.value? scope name.simple = bindings'.value? scope name.simple
  reads : ∀ resource ∈ e.resources, ∀ address,
    Run.Related R (reader.read resource address) (reader'.read resource address)

theorem SameInputs.child {e child : Expr} (same : SameInputs R reader reader' bindings bindings' e)
    (inside : child ∈ e.children) : SameInputs R reader reader' bindings bindings' child where
  names scope name member := same.names scope name (mem_references_of_child inside member)
  reads resource member := same.reads resource (mem_resources_of_child inside member)

/-- An address is evaluated index by index, from the left. -/
theorem evalAll_related {address : List Expr}
    (each : ∀ e ∈ address, Run.Related R (e.eval reader bindings) (e.eval reader' bindings')) :
    Run.Related R (evalAll reader bindings address) (evalAll reader' bindings' address) := by
  induction address with
  | nil => exact .pure []
  | cons e rest ih =>
    obtain ⟨first, later⟩ := List.forall_mem_cons.mp each
    exact first.bind fun v => (ih later).bind fun values => .pure (v :: values)

/-- Evaluation asks for nothing but the names that an expression refers to and the resources that
it reads. -/
theorem SameInputs.eval_related {e : Expr}
    (same : SameInputs R reader reader' bindings bindings' e) :
    Run.Related R (e.eval reader bindings) (e.eval reader' bindings') := by
  induction e with
  | const v => exact .pure v
  | ref scope name =>
    have found := same.names scope name (by simp [references])
    simp only [eval, found]
    split
    · exact .pure _
    · exact .throw _
  | read resource address ih =>
    have each := evalAll_related fun e inside => ih e inside (same.child inside)
    exact each.bind fun indices => same.reads resource List.mem_cons_self indices
  | unary op operand ih =>
    exact (ih (same.child (by simp [children]))).bind fun v => .lift (op.apply v)
  | binary op lhs rhs ihLeft ihRight =>
    have left := ihLeft (same.child (by simp [children]))
    have right := ihRight (same.child (by simp [children]))
    exact left.bind fun v => right.bind fun w => .lift (op.apply v w)
  | logical op lhs rhs ihLeft ihRight =>
    have left := ihLeft (same.child (by simp [children]))
    have right := ihRight (same.child (by simp [children]))
    refine left.bind fun v => (Run.Related.lift v.toBool).bind fun holds => ?_
    split
    · exact .pure _
    · exact right.bind fun w => (Run.Related.lift w.toBool).bind fun holds => .pure _
  | slice operand s ih =>
    exact (ih (same.child (by simp [children]))).bind fun v => .lift (v.slice s)
  | resize mode operand ty ih =>
    exact (ih (same.child (by simp [children]))).bind fun v => .lift (mode.apply v ty)
  | concat high low ihHigh ihLow =>
    have top := ihHigh (same.child (by simp [children]))
    have bottom := ihLow (same.child (by simp [children]))
    exact top.bind fun v => bottom.bind fun w => .pure (v.concat w)
  | select condition whenTrue otherwise ihTest ihTrue ihFalse =>
    have test := ihTest (same.child (by simp [children]))
    refine test.bind fun v => (Run.Related.lift v.toBool).bind fun holds => ?_
    split
    · exact ihTrue (same.child (by simp [children]))
    · exact ihFalse (same.child (by simp [children]))

end Related

end Expr

end MachineDescription
