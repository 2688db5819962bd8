import MachineDescription.Expr.Contents
import MachineDescription.Proofs.Evaluation

namespace MachineDescription

namespace Name

theorem simple_eq_of_parts {name other : Name} (same : name.parts = other.parts) :
    name.simple = other.simple := by
  rw [simple, simple, same]

/-- Of names with the same parts one is left. -/
theorem exists_mem_distinct {names : List Name} {name : Name} (member : name ∈ names) :
    ∃ other ∈ distinct names, other.parts = name.parts := by
  induction names with
  | nil => cases member
  | cons first rest ih =>
    rcases List.mem_cons.mp member with rfl | later
    · exact ⟨name, List.mem_cons_self, rfl⟩
    · obtain ⟨other, inside, same⟩ := ih later
      by_cases first_eq : other.parts = first.parts
      · exact ⟨first, List.mem_cons_self, first_eq.symm.trans same⟩
      · have differs : (other != first) = true := by
          rw [bne, Bool.not_eq_true', ← Bool.not_eq_true, beq_iff]
          exact first_eq
        exact ⟨other, List.mem_cons_of_mem _ (List.mem_filter.mpr ⟨inside, differs⟩), same⟩

end Name

/-- A resource and the address at which it is read. -/
abbrev Call : Type :=
  Name × List Value

namespace Reader

variable {σ : Type}

/-- The reader that keeps, beside the state of another one, the calls it has passed on. -/
def logged (reader : Reader σ) : Reader (σ × List Call) where
  read resource address := fun state =>
    let outcome := (reader.read resource address).run state.1
    (outcome.1, outcome.2, state.2 ++ [(resource, address)])

/-- A reader with a log serves the same values as without it. -/
theorem logged_related (reader : Reader σ) {known : Name → Prop} {resource : Name}
    (isKnown : known resource) (address : List Value) :
    Run.Related (fun s t => t.1 = s ∧ ∀ call ∈ t.2, known call.1)
      (reader.read resource address) (reader.logged.read resource address) := by
  rintro s ⟨_, log⟩ ⟨rfl, before⟩
  refine ⟨rfl, rfl, fun call member => ?_⟩
  rcases List.mem_append.mp member with old | new
  · exact before call old
  · rw [List.mem_singleton.mp new]
    exact isKnown

end Reader

namespace Expr

variable {σ : Type}

/-- The calls to the reader that an evaluation makes, in their order. -/
def calls (e : Expr) (reader : Reader σ) (bindings : Bindings) (s : σ) : List Call :=
  ((e.eval reader.logged bindings).run (s, [])).2.2

/-- A resource is listed by one of several equal names, and is found under each of them. -/
theorem contains_resourceReads {e : Expr} {resource : Name} (member : resource ∈ e.resources) :
    e.resourceReads.contains resource = true := by
  obtain ⟨other, inside, same⟩ := Name.exists_mem_distinct member
  exact List.contains_iff_exists_mem_beq.mpr ⟨other, inside, Name.beq_iff.mpr same.symm⟩

theorem resources_eq_nil {e : Expr} (none : e.resourceReads = []) : e.resources = [] := by
  refine List.eq_nil_iff_forall_not_mem.mpr fun resource member => ?_
  have listed := contains_resourceReads member
  rw [none] at listed
  cases listed

/-- Keeping a log changes nothing else, and only resources of the expression get into it. -/
theorem eval_logged (e : Expr) (reader : Reader σ) (bindings : Bindings) (s : σ) :
    (e.eval reader.logged bindings).run (s, []) =
        (((e.eval reader bindings).run s).1, ((e.eval reader bindings).run s).2,
          e.calls reader bindings s) ∧
      ∀ call ∈ e.calls reader bindings s, call.1 ∈ e.resources := by
  have same : SameInputs (fun s t => t.1 = s ∧ ∀ call ∈ t.2, call.1 ∈ e.resources) reader
      reader.logged bindings bindings e :=
    ⟨fun _ _ _ => rfl, fun _ member => reader.logged_related member⟩
  obtain ⟨result, state, listed⟩ :=
    same.eval_related s (s, []) ⟨rfl, fun _ member => (nomatch member)⟩
  refine ⟨?_, listed⟩
  rw [result, ← state]
  rfl

/-- The bindings agree on the parameters and views in an expression and on its listed fields. -/
structure Agree (e : Expr) (bindings bindings' : Bindings) : Prop where
  parameters : ∀ name ∈ e.references .parameter,
    bindings.value? .parameter name.simple = bindings'.value? .parameter name.simple
  accesses : ∀ name ∈ e.references .access,
    bindings.value? .access name.simple = bindings'.value? .access name.simple
  fields : ∀ name ∈ e.fieldRefs,
    bindings.value? .field name.simple = bindings'.value? .field name.simple

/-- An evaluation looks names up by their last part, and the listed names settle what it finds. -/
theorem Agree.value?_eq {e : Expr} {bindings bindings' : Bindings}
    (agree : e.Agree bindings bindings') {scope : Scope} {name : Name}
    (member : name ∈ e.references scope) :
    bindings.value? scope name.simple = bindings'.value? scope name.simple := by
  cases scope with
  | parameter => exact agree.parameters name member
  | access => exact agree.accesses name member
  | field =>
    obtain ⟨other, listed, same⟩ := Name.exists_mem_distinct member
    rw [← Name.simple_eq_of_parts same]
    exact agree.fields other listed

/-- Bindings that agree on what is listed lead to the same result. -/
theorem Agree.eval_eq {e : Expr} {bindings bindings' : Bindings}
    (agree : e.Agree bindings bindings') (reader : Reader σ) (s : σ) :
    (e.eval reader bindings).run s = (e.eval reader bindings').run s := by
  have alike : ∀ resource ∈ e.resources, ∀ address,
      Run.Related Eq (reader.read resource address) (reader.read resource address) := by
    rintro _ _ _ s _ rfl
    exact ⟨rfl, rfl⟩
  have same : SameInputs Eq reader reader bindings bindings' e :=
    ⟨fun _ _ member => agree.value?_eq member, alike⟩
  obtain ⟨result, state⟩ := same.eval_related s s rfl
  exact Prod.ext result state

/-- The values of the parameters and views in an expression and of its listed fields settle its
result and its calls to the reader. It calls the reader for listed resources only, and if none is
listed the reader has no say in the result. -/
theorem eval_depends_on_listed (e : Expr) :
    (∀ {σ : Type} (reader : Reader σ) (bindings bindings' : Bindings),
      e.Agree bindings bindings' → ∀ s,
        (e.eval reader bindings).run s = (e.eval reader bindings').run s ∧
          e.calls reader bindings s = e.calls reader bindings' s) ∧
      (∀ {σ : Type} (reader : Reader σ) (bindings : Bindings) (s : σ),
        (e.eval reader.logged bindings).run (s, []) =
            (((e.eval reader bindings).run s).1, ((e.eval reader bindings).run s).2,
              e.calls reader bindings s) ∧
          ∀ call ∈ e.calls reader bindings s, e.resourceReads.contains call.1 = true) ∧
      (e.resourceReads = [] → ∀ {σ τ : Type} (reader : Reader σ) (reader' : Reader τ)
        (bindings : Bindings) (s : σ) (t : τ),
        ((e.eval reader bindings).run s).1 = ((e.eval reader' bindings).run t).1) := by
  refine ⟨?_, ?_, ?_⟩
  · intro σ reader bindings bindings' agree s
    have logs := agree.eval_eq reader.logged (s, [])
    exact ⟨agree.eval_eq reader s, by rw [calls, logs, calls]⟩
  · intro σ reader bindings s
    obtain ⟨same, listed⟩ := e.eval_logged reader bindings s
    exact ⟨same, fun call member => contains_resourceReads (listed call member)⟩
  · intro none σ τ reader reader' bindings s t
    have unread : ∀ resource ∈ e.resources, ∀ address, Run.Related (fun _ _ => True)
        (reader.read resource address) (reader'.read resource address) := by
      rw [resources_eq_nil none]
      exact fun _ member => (nomatch member)
    have same : SameInputs (fun _ _ => True) reader reader' bindings bindings e :=
      ⟨fun _ _ _ => rfl, unread⟩
    exact (same.eval_related s t trivial).1

end Expr

/-- The number in the field `rs1` above the register of that number. -/
def Expr.selfAddressed : Expr :=
  .concat (.ref .field (.ofParts ["R", "rs1"]))
    (.read (.ofParts ["X"]) [.ref .field (.ofParts ["rs1"])])

def Bindings.registerTwo : Bindings :=
  Bindings.empty.bind .field "rs1" (.wrap (.bits 2) 2)

def Cell.registers : List Cell :=
  [⟨"X", [2], .wrap (.bits 4) 7⟩]

/-- Two references with different qualified names go to one binding, and a binding of `rd` does not
matter to either. -/
theorem Expr.eval_depends_on_listed_selfAddressed :
    selfAddressed.fieldRefs.map Name.qualified = ["R::rs1", "rs1"] ∧
      ((selfAddressed.eval (Cell.reader Cell.registers) .registerTwo).run []).1 =
        .ok (.wrap (.bits 6) 0b100111) ∧
      (∀ s, (selfAddressed.eval (Cell.reader Cell.registers) .registerTwo).run s =
        (selfAddressed.eval (Cell.reader Cell.registers)
          (Bindings.registerTwo.bind .field "rd" (.ofBool true))).run s) ∧
      (selfAddressed.calls (Cell.reader Cell.registers) .registerTwo []).map
        (·.1.qualified) = ["X"] ∧
      (∀ call ∈ selfAddressed.calls (Cell.reader Cell.registers) .registerTwo [],
        selfAddressed.resourceReads.contains call.1 = true) ∧
      ∀ log, (((Expr.ref .field (.ofParts ["rs1"])).eval (Cell.reader Cell.registers)
          .registerTwo).run log).1 =
        (((Expr.ref .field (.ofParts ["rs1"])).eval Reader.none .registerTwo).run ()).1 := by
  have law := eval_depends_on_listed selfAddressed
  have agree : selfAddressed.Agree .registerTwo
      (Bindings.registerTwo.bind .field "rd" (.ofBool true)) := by
    refine ⟨fun _ member => (nomatch member), fun _ member => (nomatch member), ?_⟩
    intro name member
    rcases List.mem_cons.mp member with rfl | member
    · rfl
    · cases List.mem_singleton.mp member
      rfl
  refine ⟨rfl, rfl, fun s => (law.1 _ _ _ agree s).1, rfl, (law.2.1 _ _ _).2, fun log => ?_⟩
  exact (eval_depends_on_listed (.ref .field (.ofParts ["rs1"]))).2.2 rfl _ _ _ _ _

end MachineDescription
