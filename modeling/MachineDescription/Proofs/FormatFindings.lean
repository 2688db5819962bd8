import MachineDescription.Proofs.Ambiguity
import MachineDescription.Proofs.NestedSlices
import MachineDescription.Proofs.WordRoundTrip
import Mathlib.Data.List.Forall2

namespace MachineDescription

section Pairs

variable {α β : Type}

theorem pairs_map (g : α → β) (l : List α) : pairs (l.map g) = (pairs l).map (Prod.map g g) := by
  induction l with
  | nil => rfl
  | cons a rest ih =>
    simp only [List.map_cons, pairs, ih, List.map_append, List.map_map]
    rfl

/-- Pairs of an ordered list are in the order of their first elements, then of their second ones. -/
theorem pairwise_pairs {R : α → α → Prop} {l : List α} (ordered : l.Pairwise R) :
    (pairs l).Pairwise fun p q => R p.1 q.1 ∨ p.1 = q.1 ∧ R p.2 q.2 := by
  induction l with
  | nil => exact List.Pairwise.nil
  | cons a rest ih =>
    obtain ⟨first, later⟩ := List.pairwise_cons.mp ordered
    refine List.pairwise_append.mpr ⟨?_, ih later, ?_⟩
    · exact List.pairwise_map.mpr (later.imp fun related => Or.inr ⟨rfl, related⟩)
    · rintro p inFirst q inLater
      obtain ⟨b, _, rfl⟩ := List.mem_map.mp inFirst
      obtain ⟨m, n, _, atM, _⟩ := mem_pairs_iff.mp inLater
      exact Or.inl (first q.1 (List.mem_of_getElem? atM))

/-- Places tell pairs apart whose elements are equal. -/
theorem mem_pairs_zipIdx_iff {l : List α} {a b : α} {m n : Nat} :
    ((a, m), (b, n)) ∈ pairs l.zipIdx ↔ m < n ∧ l[m]? = some a ∧ l[n]? = some b := by
  have counted : ∀ {place : Nat} {c : α} {k : Nat},
      l.zipIdx[place]? = some (c, k) ↔ l[place]? = some c ∧ place = k := by
    simp [List.getElem?_zipIdx, Option.map_eq_some_iff]
  simp only [mem_pairs_iff, counted]
  constructor
  · rintro ⟨_, _, ordered, ⟨atM, rfl⟩, atN, rfl⟩
    exact ⟨ordered, atM, atN⟩
  · rintro ⟨ordered, atM, atN⟩
    exact ⟨m, n, ordered, ⟨atM, rfl⟩, atN, rfl⟩

/-- The pairs that pass a test are those at certain pairs of places, one for each, in order. -/
theorem exists_places (l : List α) (test : α × α → Bool) :
    ∃ places : List (Nat × Nat),
      places.Pairwise (fun p q => p.1 < q.1 ∨ p.1 = q.1 ∧ p.2 < q.2) ∧
      (∀ m n, (m, n) ∈ places ↔
        m < n ∧ ∃ a b, l[m]? = some a ∧ l[n]? = some b ∧ test (a, b) = true) ∧
      List.Forall₂ (fun place pair => l[place.1]? = some pair.1 ∧ l[place.2]? = some pair.2)
        places ((pairs l).filter test) := by
  -- every element is taken together with its place
  have numbered : l.zipIdx.Pairwise fun x y => x.2 < y.2 := by
    rw [← List.pairwise_map, List.zipIdx_map_snd]
    exact List.pairwise_lt_range'
  have unnumbered : (pairs l).filter test =
      ((pairs l.zipIdx).filter (test ∘ Prod.map Prod.fst Prod.fst)).map
        (Prod.map Prod.fst Prod.fst) := by
    rw [← List.filter_map, ← pairs_map, List.zipIdx_map_fst]
  refine ⟨((pairs l.zipIdx).filter (test ∘ Prod.map Prod.fst Prod.fst)).map
    (Prod.map Prod.snd Prod.snd), ?_, fun m n => ?_, ?_⟩
  · refine List.pairwise_map.mpr (((pairwise_pairs numbered).filter _).imp ?_)
    rintro p q (before | ⟨same, before⟩)
    · exact Or.inl before
    · exact Or.inr ⟨congrArg Prod.snd same, before⟩
  · rw [List.mem_map]
    constructor
    · rintro ⟨⟨⟨a, i⟩, b, j⟩, member, same⟩
      obtain ⟨rfl, rfl⟩ := Prod.mk.inj same
      obtain ⟨paired, passes⟩ := List.mem_filter.mp member
      obtain ⟨ordered, atM, atN⟩ := mem_pairs_zipIdx_iff.mp paired
      exact ⟨ordered, a, b, atM, atN, passes⟩
    · rintro ⟨ordered, a, b, atM, atN, passes⟩
      exact ⟨((a, m), (b, n)),
        List.mem_filter.mpr ⟨mem_pairs_zipIdx_iff.mpr ⟨ordered, atM, atN⟩, passes⟩, rfl⟩
  · rw [unnumbered, List.forall₂_map_left_iff, List.forall₂_map_right_iff, List.forall₂_same]
    rintro ⟨⟨a, m⟩, b, n⟩ member
    exact (mem_pairs_zipIdx_iff.mp (List.mem_filter.mp member).1).2

end Pairs

namespace BitRange

/-- Ranges whose indices fall are runs with a gap between any two, if none continues another. -/
theorem pairwise_gap {ranges : List BitRange} (falling : (descending ranges).Pairwise (· > ·))
    (maximal : Maximal ranges) : ranges.Pairwise fun r t => t.msb + 1 < r.lsb := by
  induction ranges with
  | nil => exact List.Pairwise.nil
  | cons r rest ih =>
    rw [descending_cons] at falling
    obtain ⟨_, later, across⟩ := List.pairwise_append.mp falling
    have below : ∀ t ∈ rest, t.msb < r.lsb := by
      intro t member
      have inFirst : r.lsb ∈ r.indices.reverse :=
        List.mem_reverse.mpr (mem_indices.mpr ⟨Nat.le_refl _, r.lsb_le_msb⟩)
      exact across _ inFirst _ (mem_descending.mpr ⟨t, member, t.contains_msb⟩)
    cases rest with
    | nil => exact List.pairwise_singleton _ _
    | cons next rest =>
      obtain ⟨apart, maximalRest⟩ := maximal
      have gaps := ih later maximalRest
      have first : next.msb + 1 < r.lsb := by
        have := below next List.mem_cons_self
        omega
      refine List.pairwise_cons.mpr ⟨?_, gaps⟩
      intro t member
      rcases List.mem_cons.mp member with rfl | further
      · exact first
      · have := (List.pairwise_cons.mp gaps).1 t further
        have := next.lsb_le_msb
        omega

end BitRange

namespace Diagnostic

/-- The findings under a rule. -/
def underRule (rule : Rule) (found : List Diagnostic) : List Diagnostic :=
  found.filter fun d => d.origin = .verification rule

/-- Findings of one rule are all under this rule and none is under another. -/
theorem underRule_of_origin (rule : Rule) {other : Rule} {found : List Diagnostic}
    (all : ∀ d ∈ found, d.origin = .verification other) :
    underRule rule found = if other = rule then found else [] := by
  split
  · rename_i same
    exact List.filter_eq_self.mpr fun d member => decide_eq_true (same ▸ all d member)
  · rename_i different
    refine List.filter_eq_nil_iff.mpr fun d member under => different ?_
    exact Origin.verification.inj ((all d member).symm.trans (of_decide_eq_true under))

theorem underRule_eq_nil {rule : Rule} {rules : List Rule} {found : List Diagnostic}
    (others : ∀ d ∈ found, d.Under rules) (unlisted : rule ∉ rules) :
    underRule rule found = [] := by
  refine List.filter_eq_nil_iff.mpr fun d member same => ?_
  obtain ⟨other, listed, origin⟩ := others d member
  cases (of_decide_eq_true same).symm.trans origin
  exact unlisted listed

theorem underRule_append (rule : Rule) (found more : List Diagnostic) :
    underRule rule (found ++ more) = underRule rule found ++ underRule rule more :=
  List.filter_append _ _

end Diagnostic

open Diagnostic (underRule)

namespace Format

variable {f : Format}

/-- A bit of the word that belongs to no field. -/
def IsGap (f : Format) (bit : Nat) : Prop :=
  bit < f.width ∧ ∀ m ∈ f.fields, ¬m.item.slice.contains bit = true

instance (f : Format) (bit : Nat) : Decidable (f.IsGap bit) :=
  inferInstanceAs (Decidable (_ ∧ _))

theorem coverageFindings_origin (f : Format) :
    ∀ d ∈ f.coverageFindings, d.origin = .verification .uncoveredBits := by
  intro d member
  obtain ⟨slice, _, rfl⟩ := List.mem_map.mp member
  rfl

theorem overlapFindings_origin (f : Format) :
    ∀ d ∈ f.overlapFindings, d.origin = .verification .overlappingFields := by
  intro d member
  obtain ⟨pair, _, rfl⟩ := List.mem_map.mp member
  rfl

/-- The two parts of the findings on a format are told apart by their rules. -/
theorem underRule_findings (f : Format) :
    underRule .uncoveredBits f.findings = f.uncoveredSlice?.toList.map f.gapReport ∧
      underRule .overlappingFields f.findings =
        f.overlapping.map fun pair => f.overlapReport pair.1 pair.2 := by
  simp only [findings, Diagnostic.underRule_append, reduceCtorEq, if_true, if_false,
    List.append_nil, List.nil_append,
    Diagnostic.underRule_of_origin _ f.coverageFindings_origin,
    Diagnostic.underRule_of_origin _ f.overlapFindings_origin]
  exact ⟨rfl, rfl⟩

/-- The bits of a gap are listed one by one from the highest down. -/
theorem uncovered_reverse_falling (f : Format) : f.uncovered.reverse.Pairwise (· > ·) :=
  List.pairwise_reverse.mpr (List.pairwise_lt_range.filter _)

/-- The bits of a gap, each as a range of its own, always make a slice. -/
theorem exists_uncoveredSlice (narrow : f.width < Bits.limit 32) (gap : ∃ bit, f.IsGap bit) :
    ∃ slice, f.uncoveredSlice? = some slice ∧
      BitRange.descending slice.ranges = f.uncovered.reverse := by
  have valid : ∃ slice, Slice.ofRanges (f.uncovered.reverse.map .single) = .ok slice := by
    refine Slice.exists_ofRanges_iff.mpr ⟨?_, ?_, ?_⟩
    · obtain ⟨bit, free⟩ := gap
      have listed := List.mem_reverse.mpr (mem_uncovered.mpr free)
      exact mt List.map_eq_nil_iff.mp (List.ne_nil_of_mem listed)
    · intro r member
      obtain ⟨bit, listed, rfl⟩ := List.mem_map.mp member
      have inside := (mem_uncovered.mp (List.mem_reverse.mp listed)).1
      have top : BitRange.maxIndex + 2 = Bits.limit 32 := by decide
      change bit ≤ BitRange.maxIndex
      omega
    · refine BitRange.pairwise_map_single (f.uncovered_reverse_falling.imp fun above => ?_)
      exact Nat.ne_of_gt above
  obtain ⟨slice, made⟩ := valid
  obtain ⟨_, _, _, joined⟩ := Slice.ofRanges_eq_ok_iff.mp made
  refine ⟨slice, by rw [uncoveredSlice?, made]; rfl, ?_⟩
  rw [joined, BitRange.descending_merge, BitRange.descending_map_single]

/-- A format with a gap is reported once. The slice in the report holds the bits of the gap and no
others, as runs that fall and do not touch. -/
theorem exists_gapReport (narrow : f.width < Bits.limit 32) (gap : ∃ bit, f.IsGap bit) :
    ∃ slice : Slice, underRule .uncoveredBits f.findings = [f.gapReport slice] ∧
      (∀ bit, slice.contains bit = true ↔ f.IsGap bit) ∧
      slice.ranges.Pairwise fun r t => t.msb + 1 < r.lsb := by
  obtain ⟨slice, made, falls⟩ := exists_uncoveredSlice narrow gap
  refine ⟨slice, ?_, fun bit => ?_, ?_⟩
  · rw [f.underRule_findings.1, made]
    rfl
  · rw [← Slice.mem_positions, Slice.positions_eq_reverse, falls, List.reverse_reverse,
      mem_uncovered]
    rfl
  · exact BitRange.pairwise_gap (falls ▸ f.uncovered_reverse_falling) slice.maximal

/-- A format without a gap has no bits to make a slice of. -/
theorem underRule_uncoveredBits_eq_nil (whole : ¬∃ bit, f.IsGap bit) :
    underRule .uncoveredBits f.findings = [] := by
  have nothing : f.uncovered = [] :=
    List.eq_nil_iff_forall_not_mem.mpr fun bit listed => whole ⟨bit, mem_uncovered.mp listed⟩
  rw [f.underRule_findings.1, uncoveredSlice?, nothing]
  rfl

/-- Two fields are reported once for each pair of places at which they share a bit. -/
theorem exists_overlapReports (f : Format) :
    ∃ places : List (Nat × Nat),
      places.Pairwise (fun p q => p.1 < q.1 ∨ p.1 = q.1 ∧ p.2 < q.2) ∧
      (∀ m n, (m, n) ∈ places ↔
        m < n ∧ ∃ a b, f.fields[m]? = some a ∧ f.fields[n]? = some b ∧
          ∃ bit, a.item.slice.contains bit = true ∧ b.item.slice.contains bit = true) ∧
      List.Forall₂ (fun place d => ∃ a b, f.fields[place.1]? = some a ∧
          f.fields[place.2]? = some b ∧ d = f.overlapReport a.item b.item)
        places (underRule .overlappingFields f.findings) := by
  have members : f.overlapping =
      ((pairs f.fields).filter fun pair => pair.1.item.slice.overlaps pair.2.item.slice).map
        (Prod.map (·.item) (·.item)) := by
    rw [overlapping, pairs_map, List.filter_map]
    rfl
  obtain ⟨places, ordered, listed, found⟩ := exists_places f.fields
    fun pair => pair.1.item.slice.overlaps pair.2.item.slice
  refine ⟨places, ordered, fun m n => ?_, ?_⟩
  · simp only [listed, Slice.overlaps_iff]
  · rw [f.underRule_findings.2, members, List.map_map, List.forall₂_map_right_iff]
    exact found.imp fun place pair here => ⟨pair.1, pair.2, here.1, here.2, rfl⟩

end Format

theorem Instruction.findings_under {instructions : List Instruction} {d : Diagnostic}
    (found : d ∈ findings instructions) : d.Under [.emptyEncoding, .ambiguousEncoding] := by
  rcases mem_findings_iff.mp found with ⟨i, _, empty⟩ | ⟨i, j, _, report⟩
  · exact (emptyFinding?_under empty).mono (by decide)
  · obtain ⟨_, rfl⟩ := ambiguity?_eq_some_iff.mp report
    exact Diagnostic.under_finding (by decide) _ _

namespace InstructionSet

/-- Under the two rules on formats the verifier reports on each format on its own, and on nothing
else. -/
theorem underRule_findings (s : InstructionSet) {rule : Rule}
    (onFormats : rule ∈ [Rule.uncoveredBits, .overlappingFields]) :
    underRule rule s.findings = s.formats.flatMap fun f => underRule rule f.item.findings := by
  let others : List Rule := [.duplicateConstraint, .conflictingConstraint, .unknownInnerResource,
    .unownedCounterResource, .unownedAbiRegister, .abiSavedTwice, .emptyEncoding,
    .ambiguousEncoding]
  have unlisted : ∀ rule ∈ [Rule.uncoveredBits, .overlappingFields], rule ∉ others := by decide
  have elsewhere : ∀ d ∈ s.resources.flatMap s.resourceFindings ++
      (s.counters.filterMap s.counterFinding? ++ (s.conventions.flatMap s.conventionFindings ++
        Instruction.findings s.instructions)), d.Under others := by
    intro d found
    simp only [List.mem_append, List.mem_flatMap, List.mem_filterMap] at found
    rcases found with ⟨r, _, inR⟩ | ⟨c, _, ofC⟩ | ⟨c, _, inC⟩ | inI
    · exact (resourceFindings_under inR).mono (by decide)
    · exact (counterFinding?_under ofC).mono (by decide)
    · exact (conventionFindings_under inC).mono (by decide)
    · exact (Instruction.findings_under inI).mono (by decide)
  rw [findings, List.append_assoc, List.append_assoc, List.append_assoc,
    Diagnostic.underRule_append, Diagnostic.underRule_eq_nil elsewhere (unlisted rule onFormats),
    List.append_nil]
  exact List.filter_flatMap

end InstructionSet

/-- A word with open bits in two places, in which the last two fields share two bits. -/
def Format.gappy : Format :=
  built (.ofParts ["G"]) 16 [.bits "op" 15 13, .bits "a" 11 6, .bits "b" 7 4]

def InstructionSet.gappy : InstructionSet :=
  built (.ofParts ["W"]) ([.format 0] : List (Registration fun _ => Format.gappy))

end MachineDescription
