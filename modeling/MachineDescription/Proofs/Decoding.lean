import MachineDescription.InstructionSet.Decode
import MachineDescription.InstructionSet.Verify
import MachineDescription.Proofs.PatternBits
import MachineDescription.Proofs.Registration
import Mathlib.Data.List.Pairwise

namespace MachineDescription

namespace Pattern

/-- One of the patterns fixes all that the other one fixes, and more. -/
def Comparable (p q : Pattern) : Prop :=
  p.fixed ⊂ q.fixed ∨ q.fixed ⊂ p.fixed

theorem Comparable.specificity_ne {p q : Pattern} (comparable : p.Comparable q) :
    p.specificity ≠ q.specificity := by
  rw [specificity_eq_card, specificity_eq_card]
  rcases comparable with larger | smaller
  · exact (Finset.card_lt_card larger).ne
  · exact (Finset.card_lt_card smaller).ne'

end Pattern

namespace Instruction

instance : Std.Symm fun i j : Instruction => i.pattern.Comparable j.pattern :=
  ⟨fun _ _ => Or.symm⟩

/-- The test of the verifier by masks and numbers of fixed bits is an inclusion of the fixed bits.
-/
theorem comparable_of_refines {p q : Pattern} (refined : refines p q = true) : p.Comparable q := by
  simp only [refines, Bool.and_eq_true, Bool.or_eq_true, beq_iff_eq, bne_iff_ne] at refined
  obtain ⟨included, different⟩ := refined
  rw [Pattern.specificity_eq_card, Pattern.specificity_eq_card] at different
  have unequal : p.fixed ≠ q.fixed := fun same => different (by rw [same])
  rcases included with left | right
  · exact Or.inl (Pattern.and_mask_eq_left_iff.mp left |>.ssubset_of_ne unequal)
  · rw [Nat.and_comm] at right
    exact Or.inr (Pattern.and_mask_eq_left_iff.mp right |>.ssubset_of_ne unequal.symm)

/-- Instructions without a report of an ambiguity are told apart on every common word. -/
theorem comparable_of_accepts {i j : Instruction} (clear : i.ambiguity? j = none) {word : Value}
    (left : i.pattern.accepts word = true) (right : j.pattern.accepts word = true) :
    i.pattern.Comparable j.pattern := by
  apply comparable_of_refines
  by_contra unrefined
  have common := Pattern.overlaps_of_accepts left right
  simp only [ambiguity?, common, Bool.true_and] at clear
  rw [if_pos (by simpa using unrefined)] at clear
  cases clear

/-- The verifier compares patterns two by two and reports each ambiguous pair as an error. -/
theorem pairwise_of_findings {instructions : List Instruction}
    (clean : ∀ d ∈ findings instructions, d.isError = false) :
    instructions.Pairwise fun i j => i.ambiguity? j = none := by
  induction instructions with
  | nil => exact List.Pairwise.nil
  | cons i rest ih =>
    refine List.pairwise_cons.mpr ⟨fun j member => ?_, ih fun d later => ?_⟩
    · cases report : i.ambiguity? j with
      | none => rfl
      | some d =>
        have found : d ∈ rest.filterMap i.ambiguity? := List.mem_filterMap.mpr ⟨j, member, report⟩
        have harmless := clean d (List.mem_append_left _ (List.mem_append_right _ found))
        unfold ambiguity? at report
        split at report
        · cases report
          cases harmless
        · cases report
    · exact clean d (List.mem_append_right _ later)

end Instruction

namespace InstructionSet

theorem mem_candidates {s : InstructionSet} {word : Value} {i : Instruction} :
    i ∈ s.candidates word ↔ i ∈ s.instructions ∧ i.pattern.accepts word = true :=
  List.mem_filter

/-- The verifier goes through the formats, the resources, the counters, the conventions and the
instructions. -/
theorem mem_findings {s : InstructionSet} {d : Diagnostic} :
    d ∈ s.findings ↔
      (∃ f ∈ s.formats, d ∈ f.item.findings) ∨ (∃ r ∈ s.resources, d ∈ s.resourceFindings r) ∨
        (∃ c ∈ s.counters, s.counterFinding? c = some d) ∨
        (∃ c ∈ s.conventions, d ∈ s.conventionFindings c) ∨
        d ∈ Instruction.findings s.instructions := by
  simp only [findings, List.mem_append, List.mem_flatMap, List.mem_filterMap, or_assoc]

/-- Errors are returned instead of the warnings, so a set that passes has none. -/
theorem verify_eq_ok_iff {s : InstructionSet} {warnings : List Diagnostic} :
    s.verify = .ok warnings ↔ warnings = s.findings ∧ ∀ d ∈ s.findings, d.isError = false := by
  have harmless : (s.findings.filter Diagnostic.isError).isEmpty = true ↔
      ∀ d ∈ s.findings, d.isError = false := by
    simp only [List.isEmpty_iff, List.filter_eq_nil_iff, Bool.not_eq_true]
  unfold verify
  rw [← harmless]
  by_cases clean : (s.findings.filter Diagnostic.isError).isEmpty = true
  · simp [clean, eq_comm]
  · simp [clean]

theorem pairwise_of_verify {s : InstructionSet} {warnings : List Diagnostic}
    (verified : s.verify = .ok warnings) :
    s.instructions.Pairwise fun i j => i.ambiguity? j = none := by
  obtain ⟨rfl, harmless⟩ := verify_eq_ok_iff.mp verified
  refine Instruction.pairwise_of_findings fun d member => harmless d ?_
  exact mem_findings.mpr (.inr (.inr (.inr (.inr member))))

/-- The instructions that accept a word form a chain: of any two, one refines the other. -/
theorem candidates_comparable {s : InstructionSet} {warnings : List Diagnostic}
    (verified : s.verify = .ok warnings) (word : Value) :
    (s.candidates word).Pairwise fun i j => i.pattern.Comparable j.pattern := by
  have clear := (pairwise_of_verify verified).sublist
    (List.filter_sublist (p := fun i => i.pattern.accepts word))
  refine clear.imp_of_mem ?_
  intro i j left right unambiguous
  exact Instruction.comparable_of_accepts unambiguous (List.mem_filter.mp left).2
    (List.mem_filter.mp right).2

/-- The instruction that fixes most bits fixes all the bits of each other candidate. -/
theorem decode_eq_some_iff {s : InstructionSet} {word : Value}
    (chain : (s.candidates word).Pairwise fun i j => i.pattern.Comparable j.pattern)
    {i : Instruction} :
    s.decode word = some i ↔
      i ∈ s.candidates word ∧
        ∀ j ∈ s.candidates word, j = i ∨ j.pattern.fixed ⊂ i.pattern.fixed := by
  have greatest : ∀ best, s.decode word = some best →
      best ∈ s.candidates word ∧
        ∀ j ∈ s.candidates word, j = best ∨ j.pattern.fixed ⊂ best.pattern.fixed := by
    intro best found
    have leads := Instruction.leads_of_mostSpecific? found
    refine ⟨leads.mem, fun j member => or_iff_not_imp_left.mpr fun different => ?_⟩
    rcases chain.forall member leads.mem different with smaller | larger
    · exact smaller
    · have bound := leads.specificity_le member
      have more := Finset.card_lt_card larger
      rw [← Pattern.specificity_eq_card, ← Pattern.specificity_eq_card] at more
      omega
  constructor
  · exact greatest i
  · rintro ⟨member, above⟩
    cases found : s.decode word with
    | none =>
      rw [Instruction.mostSpecific?_eq_none_iff.mp found] at member
      cases member
    | some best =>
      obtain ⟨inside, top⟩ := greatest best found
      rcases top i member with same | below
      · rw [same]
      · rcases above best inside with same | above'
        · rw [same]
        · exact absurd (below.trans above') (ssubset_irrefl _)

theorem decode_eq_none_iff {s : InstructionSet} {word : Value} :
    s.decode word = none ↔ ∀ i ∈ s.instructions, i.pattern.accepts word = false := by
  rw [decode, Instruction.mostSpecific?_eq_none_iff, candidates, List.filter_eq_nil_iff]
  exact forall₂_congr fun i _ => Bool.eq_false_iff.symm

/-- Among candidates of different numbers of fixed bits the order of registration does not matter.
-/
theorem decode_perm {s t : InstructionSet} (rearranged : t.instructions.Perm s.instructions)
    {word : Value}
    (chain : (s.candidates word).Pairwise fun i j => i.pattern.Comparable j.pattern) :
    t.decode word = s.decode word := by
  have same : (t.candidates word).Perm (s.candidates word) := rearranged.filter _
  have chain' : (t.candidates word).Pairwise fun i j => i.pattern.Comparable j.pattern :=
    (same.pairwise_iff Or.symm).mpr chain
  apply Option.ext
  intro i
  rw [decode_eq_some_iff chain, decode_eq_some_iff chain', same.mem_iff]
  exact and_congr_right fun _ => forall_congr' fun j => by rw [same.mem_iff]

/-- A verified instruction set decodes a word as the one instruction that refines all others that
accept the word, and the order of the instructions has no say in it. -/
theorem decode_verified {s : InstructionSet} {warnings : List Diagnostic}
    (verified : s.verify = .ok warnings) (word : Value) :
    (s.candidates word).Pairwise (fun i j => i.pattern.fixed ⊂ j.pattern.fixed ∨
        j.pattern.fixed ⊂ i.pattern.fixed) ∧
      (s.candidates word).Pairwise (fun i j => i.pattern.specificity ≠ j.pattern.specificity) ∧
      (s.decode word = none ↔ ∀ i ∈ s.instructions, i.pattern.accepts word = false) ∧
      (∀ i, s.decode word = some i ↔
        (i ∈ s.instructions ∧ i.pattern.accepts word = true) ∧
          ∀ j ∈ s.instructions, j.pattern.accepts word = true →
            j = i ∨ j.pattern.fixed ⊂ i.pattern.fixed) ∧
      ∀ t : InstructionSet, t.instructions.Perm s.instructions →
        t.decode word = s.decode word := by
  have chain := candidates_comparable verified word
  refine ⟨chain, chain.imp Pattern.Comparable.specificity_ne, decode_eq_none_iff, fun i => ?_,
    fun t rearranged => decode_perm rearranged chain⟩
  rw [decode_eq_some_iff chain]
  simp only [mem_candidates, and_imp]

/-- The word 0x10 belongs to both instructions, and is decoded as the one that fixes all its bits.
-/
theorem decode_incrementOrRest :
    (built (.ofParts ["Tiny"]) incrementOrRest).verify = .ok [] ∧
      ((built (.ofParts ["Tiny"]) incrementOrRest).candidates (.wrap (.bits 8) 0x10)).map
        (·.name.simple) = ["INC", "NOP"] ∧
      ((built (.ofParts ["Tiny"]) incrementOrRest).decode (.wrap (.bits 8) 0x10)).map
        (·.name.simple) = some "NOP" ∧
      ∀ t : InstructionSet,
        t.instructions.Perm (built (.ofParts ["Tiny"]) incrementOrRest).instructions →
          t.decode (.wrap (.bits 8) 0x10) =
            (built (.ofParts ["Tiny"]) incrementOrRest).decode (.wrap (.bits 8) 0x10) :=
  ⟨rfl, rfl, rfl, (decode_verified rfl _).2.2.2.2⟩

end InstructionSet

end MachineDescription
