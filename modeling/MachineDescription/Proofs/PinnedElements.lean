import MachineDescription.Proofs.Decoding

namespace MachineDescription

namespace Constraint

/-- The indices are the same numbers, whatever their types. -/
def SameElement (c d : Constraint) : Prop :=
  c.indices.map (·.pattern) = d.indices.map (·.pattern)

def SameTypes (c d : Constraint) : Prop :=
  c.indices.map (·.ty) = d.indices.map (·.ty)

/-- Constraints with the same index values pin the same value. -/
def Agrees (c d : Constraint) : Prop :=
  c.indices = d.indices → c.value.pattern = d.value.pattern

theorem values_eq_iff {v w : List Value} :
    v = w ↔ v.map (·.pattern) = w.map (·.pattern) ∧ v.map (·.ty) = w.map (·.ty) := by
  constructor
  · rintro rfl
    exact ⟨rfl, rfl⟩
  · rintro ⟨patterns, types⟩
    induction v generalizing w with
    | nil => simpa using types
    | cons first rest ih =>
      cases w with
      | nil => cases types
      | cons first' rest' =>
        obtain ⟨pattern, patterns⟩ := List.cons.inj patterns
        obtain ⟨type, types⟩ := List.cons.inj types
        rw [Value.ext type pattern, ih patterns types]

theorem Agrees.refl (c : Constraint) : c.Agrees c :=
  fun _ => rfl

instance : Std.Symm Agrees :=
  ⟨fun _ _ agrees same => (agrees same.symm).symm⟩

theorem agrees_iff {c d : Constraint} :
    c.Agrees d ↔ (c.SameElement d → c.SameTypes d → c.value.pattern = d.value.pattern) := by
  rw [Agrees, values_eq_iff, and_imp]
  rfl

end Constraint

namespace Tensor

open Constraint

/-- One comparison is enough: the earlier constraints on an element agree with each other. -/
theorem constraintFinding?_harmless_iff {t : Tensor} {earlier : List Constraint}
    (consistent : earlier.Pairwise Agrees) (c : Constraint) :
    (∀ d ∈ t.constraintFinding? earlier c, d.isError = false) ↔ ∀ e ∈ earlier, e.Agrees c := by
  cases found : earlier.find? (·.indices == c.indices) with
  | none =>
    have unseen : ∀ e ∈ earlier, e.indices ≠ c.indices := by simpa using found
    constructor
    · intro _ e member same
      exact absurd same (unseen e member)
    · intro _ d report
      simp [constraintFinding?, found] at report
  | some other =>
    have inside : other ∈ earlier := List.mem_of_find?_eq_some found
    have same : other.indices = c.indices := by simpa using List.find?_some found
    have report : (∀ d ∈ t.constraintFinding? earlier c, d.isError = false) ↔
        other.value.pattern = c.value.pattern := by
      by_cases equal : other.value.pattern = c.value.pattern <;>
        simp [constraintFinding?, found, equal, Diagnostic.isError, Diagnostic.level,
          Diagnostic.finding, Origin.level, Rule.level]
    rw [report]
    constructor
    · intro equal e member indices
      by_cases first : e = other
      · rw [first, equal]
      · have agrees := consistent.forall member inside first
        rw [agrees (indices.trans same.symm), equal]
    · intro agree
      exact agree other inside same

/-- A run over the constraints reports no error exactly if all of them agree. -/
theorem constraintFindings_harmless_iff {t : Tensor} {earlier : List Constraint}
    (consistent : earlier.Pairwise Agrees) (rest : List Constraint) :
    (∀ d ∈ t.constraintFindings earlier rest, d.isError = false) ↔
      (earlier ++ rest).Pairwise Agrees := by
  induction rest generalizing earlier with
  | nil => simpa [constraintFindings] using consistent
  | cons c rest ih =>
    have split : (∀ d ∈ t.constraintFindings earlier (c :: rest), d.isError = false) ↔
        (∀ d ∈ t.constraintFinding? earlier c, d.isError = false) ∧
          ∀ d ∈ t.constraintFindings (earlier ++ [c]) rest, d.isError = false := by
      simp only [constraintFindings, List.mem_append, Option.mem_toList, Option.mem_def, or_imp,
        forall_and]
    have extended : (earlier ++ [c]).Pairwise Agrees ↔ ∀ e ∈ earlier, e.Agrees c := by
      simp [List.pairwise_append, consistent]
    have regrouped : earlier ++ c :: rest = earlier ++ [c] ++ rest := by simp
    rw [split, constraintFinding?_harmless_iff consistent, ← extended, regrouped]
    constructor
    · rintro ⟨agree, harmless⟩
      exact (ih agree).mp harmless
    · intro agree
      have early := (List.pairwise_append.mp agree).1
      exact ⟨early, (ih early).mpr agree⟩

/-- Indices of the same width and different types name the same element too, but constraints on it
are not compared. -/
theorem findings_harmless_iff (t : Tensor) :
    (∀ d ∈ t.findings, d.isError = false) ↔
      ∀ c ∈ t.constraints, ∀ d ∈ t.constraints, c.SameElement d → c.SameTypes d →
        c.value.pattern = d.value.pattern := by
  rw [findings, constraintFindings_harmless_iff List.Pairwise.nil, List.nil_append]
  simp only [← agrees_iff]
  constructor
  · intro agree c left d right
    by_cases same : c = d
    · rw [same]
      exact Agrees.refl d
    · exact agree.forall left right same
  · intro agree
    exact List.pairwise_of_forall_mem_list agree

end Tensor

namespace InstructionSet

theorem harmless_of_owned {s : InstructionSet} {warnings : List Diagnostic}
    (verified : s.verify = .ok warnings) {t : Declared Tensor}
    (owned : .register t ∈ s.resources) : ∀ d ∈ t.item.findings, d.isError = false := by
  obtain ⟨rfl, harmless⟩ := verify_eq_ok_iff.mp verified
  intro d report
  exact harmless d (mem_findings.mpr (.inr (.inl ⟨.register t, owned, report⟩)))

/-- In a verified instruction set, two constraints on an element pin the same value unless the types
of their indices differ somewhere. More than this is not looked at: whatever constraints a tensor
has, they are reported as conflicting exactly if two of them have indices of the same numbers and
types, and different values. -/
theorem pinned_elements_agree {s : InstructionSet} {warnings : List Diagnostic}
    (verified : s.verify = .ok warnings) {t : Declared Tensor}
    (owned : .register t ∈ s.resources) :
    (∀ c ∈ t.item.constraints, ∀ d ∈ t.item.constraints, c.SameElement d →
      c.value.pattern = d.value.pattern ∨ ¬c.SameTypes d) ∧
      ∀ constraints, (∀ d ∈ ({ t.item with constraints } : Tensor).findings, d.isError = false) ↔
        ∀ c ∈ constraints, ∀ d ∈ constraints, c.SameElement d → c.SameTypes d →
          c.value.pattern = d.value.pattern := by
  refine ⟨fun c left d right element => ?_, fun constraints => Tensor.findings_harmless_iff _⟩
  by_cases types : c.SameTypes d
  · have agree := (Tensor.findings_harmless_iff t.item).mp (harmless_of_owned verified owned)
    exact Or.inl (agree c left d right element types)
  · exact Or.inr types

/-- An instruction set with one register file of 32 registers and constraints on it. -/
def ofConstraints (constraints : List Constraint) : Except Error InstructionSet := do
  let file ← Tensor.registerFile (.ofParts ["X"]) (.bits 5) (.bits 32)
  let file ← file.withConstraints constraints
  (empty (.ofParts ["K"])).addResource (.register ⟨0, file⟩)

def pinFirst (index : DataType) (n : Nat) : Constraint :=
  ⟨[.wrap index 0], .wrap (.bits 32) n⟩

theorem pinned_elements_agree_twice :
    let constraints := [pinFirst (.bits 5) 7, pinFirst (.bits 5) 7, pinFirst (.uint 5) 8]
    ∃ s, ofConstraints constraints = .ok s ∧ (∃ warnings, s.verify = .ok warnings) ∧
      ∃ t, .register t ∈ s.resources ∧ t.item.constraints = constraints ∧
        ∀ c ∈ t.item.constraints, ∀ d ∈ t.item.constraints, c.SameElement d →
          c.value.pattern = d.value.pattern ∨ ¬c.SameTypes d := by
  intro constraints
  obtain ⟨s, made, ⟨warnings, verified⟩, t, owned, pinned⟩ :
      ∃ s, ofConstraints constraints = .ok s ∧ (∃ warnings, s.verify = .ok warnings) ∧
        ∃ t, .register t ∈ s.resources ∧ t.item.constraints = constraints :=
    ⟨_, rfl, ⟨_, rfl⟩, _, List.mem_singleton_self _, rfl⟩
  exact ⟨s, made, ⟨warnings, verified⟩, t, owned, pinned, (pinned_elements_agree verified owned).1⟩

/-- The first register is pinned to 0 under an index of type `Bits<5>` and to 1 under one of type
`UInt<5>`, and nothing is reported. -/
theorem conflict_across_index_types :
    ∃ s, ofConstraints [pinFirst (.bits 5) 0, pinFirst (.uint 5) 1] = .ok s ∧ s.verify = .ok [] ∧
      ∃ t, .register t ∈ s.resources ∧ ∃ c ∈ t.item.constraints, ∃ d ∈ t.item.constraints,
        c.SameElement d ∧ c.value.pattern ≠ d.value.pattern :=
  ⟨_, rfl, rfl, _, List.mem_singleton_self _, _, List.mem_cons_self, _,
    List.mem_cons_of_mem _ List.mem_cons_self, rfl, by decide⟩

end InstructionSet

end MachineDescription
