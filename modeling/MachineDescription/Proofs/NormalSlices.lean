import MachineDescription.Proofs.SlicePositions
import MachineDescription.Slice.Build
import Mathlib.Data.Set.Card
import Mathlib.Order.Bounds.Basic

namespace MachineDescription

namespace BitRange

/-- Ranges without a common index. -/
def Apart (r s : BitRange) : Prop :=
  ∀ index, ¬(r.contains index = true ∧ s.contains index = true)

/-- The indices of ranges. -/
def covered (ranges : List BitRange) : Set Nat :=
  {index | ∃ r ∈ ranges, r.contains index = true}

theorem overlaps_eq_false_iff {r s : BitRange} : r.overlaps s = false ↔ r.Apart s := by
  rw [Bool.eq_false_iff, ne_eq, overlaps_iff, not_exists]
  rfl

theorem pairwise_apart_iff {ranges : List BitRange} :
    ranges.Pairwise Apart ↔ ranges.Pairwise (fun r s => r.overlaps s = false) :=
  List.Pairwise.iff fun _ _ => overlaps_eq_false_iff.symm

theorem mem_descending {ranges : List BitRange} {index : Nat} :
    index ∈ descending ranges ↔ index ∈ covered ranges := by
  simp only [descending, List.mem_flatMap, List.mem_reverse, mem_indices, ← contains_iff]
  rfl

theorem descending_cons (r : BitRange) (rest : List BitRange) :
    descending (r :: rest) = r.indices.reverse ++ descending rest := rfl

theorem reverse_indices_succ (lsb n : Nat) (lower : lsb ≤ lsb + n) (ordered : lsb ≤ lsb + (n + 1)) :
    (⟨lsb + (n + 1), lsb, ordered⟩ : BitRange).indices.reverse =
      (lsb + (n + 1)) :: (⟨lsb + n, lsb, lower⟩ : BitRange).indices.reverse := by
  have sizes : lsb + (n + 1) - lsb + 1 = lsb + n - lsb + 1 + 1 := by omega
  have last : lsb + 1 * (lsb + n - lsb + 1) = lsb + (n + 1) := by omega
  simp only [indices, size]
  rw [sizes, List.range'_concat, last, List.reverse_append]
  rfl

/-- Join the indices of a range one by one, from the highest down. -/
theorem merge_indices (r : BitRange) (rest : List BitRange) :
    merge (r.indices.reverse.map single ++ rest) = merge (r :: rest) := by
  obtain ⟨msb, lsb, ordered⟩ := r
  obtain ⟨n, rfl⟩ := Nat.exists_eq_add_of_le ordered
  induction n with
  | zero => simp [indices, size, single]
  | succ n ih =>
    have lower : lsb ≤ lsb + n := Nat.le_add_right lsb n
    rw [reverse_indices_succ lsb n lower ordered, List.map_cons, List.cons_append]
    -- the highest index is cut off, and the others are joined by induction
    have touch : lsb + n + 1 = (single (lsb + (n + 1))).lsb := Nat.add_assoc lsb n 1
    rw [merge_cons, ih lower, merge_cons, merge_cons]
    exact precede_joined touch ordered (merge rest)

/-- Cutting every range into its single indices and joining them again gives the same runs as
joining the ranges themselves. -/
theorem merge_eq_merge_descending (ranges : List BitRange) :
    merge ranges = merge ((descending ranges).map single) := by
  induction ranges with
  | nil => rfl
  | cons r rest ih =>
    rw [descending_cons, List.map_append, merge_indices, merge_cons, merge_cons, ih]

/-- The runs are known from the sequence of indices. -/
theorem merge_eq_iff {ranges other : List BitRange} :
    merge ranges = merge other ↔ descending ranges = descending other := by
  constructor
  · intro same
    rw [← descending_merge ranges, same, descending_merge]
  · intro same
    rw [merge_eq_merge_descending, same, ← merge_eq_merge_descending]

/-- Runs that are maximal already stay as they are. -/
theorem Maximal.merge_eq {ranges : List BitRange} (maximal : Maximal ranges) :
    merge ranges = ranges := by
  induction ranges with
  | nil => rfl
  | cons r rest ih =>
    cases rest with
    | nil => rfl
    | cons s tail =>
      obtain ⟨gap, later⟩ := maximal
      rw [merge_cons, ih later]
      exact dif_neg gap

theorem covered_merge (ranges : List BitRange) : covered (merge ranges) = covered ranges :=
  Set.ext fun _ => exists_contains_merge

/-- Ranges without a common index hold as many indices as their sizes add up to. -/
theorem encard_covered {ranges : List BitRange}
    (apart : ranges.Pairwise (fun r s => r.overlaps s = false)) :
    (covered ranges).encard = totalSize ranges := by
  have listed : covered ranges = (descending ranges).toFinset := by
    ext index
    rw [Finset.mem_coe, List.mem_toFinset, mem_descending]
  rw [listed, Set.encard_coe_eq_coe_finsetCard,
    List.toFinset_card_of_nodup (nodup_descending apart),
    length_descending]

/-- There are not more indices than those up to the bound. -/
theorem totalSize_le {ranges : List BitRange} {bound : Nat}
    (apart : ranges.Pairwise (fun r s => r.overlaps s = false))
    (bounded : ∀ r ∈ ranges, r.msb ≤ bound) : totalSize ranges ≤ bound + 1 := by
  have inside : descending ranges ⊆ List.range (bound + 1) := by
    intro index member
    obtain ⟨r, inRanges, inRange⟩ := mem_descending.mp member
    have below := (contains_iff.mp inRange).2
    exact List.mem_range.mpr (Nat.lt_succ_of_le (Nat.le_trans below (bounded r inRanges)))
  have count := ((nodup_descending apart).subperm inside).length_le
  rwa [length_descending, List.length_range] at count

end BitRange

namespace Slice

variable {ranges : List BitRange} {s : Slice}

/-- A slice keeps of the ranges that it is made from their runs and nothing else. -/
theorem ofRanges_eq_ok_iff :
    ofRanges ranges = .ok s ↔
      ranges ≠ [] ∧ (∀ r ∈ ranges, r.msb ≤ BitRange.maxIndex) ∧
        ranges.Pairwise (fun r t => r.overlaps t = false) ∧ s.ranges = BitRange.merge ranges := by
  rw [ofRanges]
  split
  · rename_i empty
    exact iff_of_false nofun (fun valid => valid.1 empty)
  · rename_i nonempty
    split
    · rename_i reason fault
      refine iff_of_false nofun fun valid => ?_
      rw [BitRange.firstFault_eq_none_iff.mpr ⟨valid.2.1, valid.2.2.1⟩] at fault
      cases fault
    · rename_i sound
      obtain ⟨bounded, apart⟩ := BitRange.firstFault_eq_none_iff.mp sound
      constructor
      · intro made
        cases made
        exact ⟨nonempty, bounded, apart, rfl⟩
      · rintro ⟨_, _, _, joined⟩
        exact congrArg Except.ok (ext joined.symm)

theorem exists_ofRanges_iff :
    (∃ s, ofRanges ranges = .ok s) ↔
      ranges ≠ [] ∧ (∀ r ∈ ranges, r.msb ≤ BitRange.maxIndex) ∧
        ranges.Pairwise (fun r t => r.overlaps t = false) := by
  constructor
  · rintro ⟨s, made⟩
    obtain ⟨nonempty, bounded, apart, _⟩ := ofRanges_eq_ok_iff.mp made
    exact ⟨nonempty, bounded, apart⟩
  · rintro ⟨nonempty, bounded, apart⟩
    let normal : Slice := {
      ranges := BitRange.merge ranges
      nonempty := mt BitRange.merge_eq_nil_iff.mp nonempty
      apart := BitRange.apart_merge apart
      maximal := BitRange.maximal_merge ranges
      bounded := BitRange.bounded_merge bounded }
    exact ⟨normal, ofRanges_eq_ok_iff.mpr ⟨nonempty, bounded, apart, rfl⟩⟩

/-- Every slice is made from its own ranges. -/
theorem ofRanges_ranges (s : Slice) : ofRanges s.ranges = .ok s :=
  ofRanges_eq_ok_iff.mpr ⟨s.nonempty, s.bounded, s.apart, s.maximal.merge_eq.symm⟩

/-- The highest index is a maximum over the ranges, which need not be in order. -/
theorem isGreatest_msb (s : Slice) : IsGreatest (BitRange.covered s.ranges) s.msb := by
  have filled : s.ranges.map BitRange.msb ≠ [] := mt List.map_eq_nil_iff.mp s.nonempty
  obtain ⟨top, most⟩ := Option.ne_none_iff_exists'.mp (mt List.max?_eq_none_iff.mp filled)
  have value : s.msb = top := by rw [msb, most, Option.getD_some]
  obtain ⟨r, member, same⟩ := List.mem_map.mp (List.max?_mem most)
  refine ⟨⟨r, member, ?_⟩, fun index inside => le_msb_of_contains (contains_iff.mpr inside)⟩
  rw [value, ← same]
  exact r.contains_msb

theorem isLeast_lsb (s : Slice) : IsLeast (BitRange.covered s.ranges) s.lsb := by
  have filled : s.ranges.map BitRange.lsb ≠ [] := mt List.map_eq_nil_iff.mp s.nonempty
  obtain ⟨bottom, least⟩ := Option.ne_none_iff_exists'.mp (mt List.min?_eq_none_iff.mp filled)
  have value : s.lsb = bottom := by rw [lsb, least, Option.getD_some]
  obtain ⟨r, member, same⟩ := List.mem_map.mp (List.min?_mem least)
  refine ⟨⟨r, member, ?_⟩, ?_⟩
  · rw [value, ← same]
    exact r.contains_lsb
  · rintro index ⟨t, inSlice, inRange⟩
    have below := (List.min?_eq_some_iff.mp least).2 t.lsb (List.mem_map_of_mem inSlice)
    rw [value]
    exact Nat.le_trans below (BitRange.contains_iff.mp inRange).1

/-- There are less than 2³² indices, so the size of a slice is a number of 32 bits. -/
theorem size_lt (s : Slice) : s.size < Bits.limit 32 := by
  have count := BitRange.totalSize_le s.apart s.bounded
  have room : BitRange.maxIndex + 1 < Bits.limit 32 := by decide
  exact Nat.lt_of_le_of_lt count room

/-- Ranges make a slice exactly when there are any, none is too high and no two have a common index.
The slice holds their indices in the same order, as runs that are as long as possible. Its size and
its extremes are those of the set of the indices. Its own ranges make it again, and two slices are
the same exactly when they were made from the same sequence of indices. -/
theorem ofRanges_normal (ranges : List BitRange) :
    ((∃ s, ofRanges ranges = .ok s) ↔
      ranges ≠ [] ∧ (∀ r ∈ ranges, r.msb ≤ Bits.limit 32 - 2) ∧
        ranges.Pairwise BitRange.Apart) ∧
    ∀ s, ofRanges ranges = .ok s →
      s.ranges.Pairwise BitRange.Apart ∧ BitRange.Maximal s.ranges ∧
      BitRange.descending s.ranges = BitRange.descending ranges ∧
      (BitRange.covered ranges).encard = s.size ∧ s.size < Bits.limit 32 ∧
      IsGreatest (BitRange.covered ranges) s.msb ∧ IsLeast (BitRange.covered ranges) s.lsb ∧
      ofRanges s.ranges = .ok s ∧
      ∀ other t, ofRanges other = .ok t →
        (s = t ↔ BitRange.descending ranges = BitRange.descending other) := by
  refine ⟨?_, fun s made => ?_⟩
  · rw [exists_ofRanges_iff, BitRange.pairwise_apart_iff]
    rfl
  · obtain ⟨_, _, _, joined⟩ := ofRanges_eq_ok_iff.mp made
    have same : BitRange.covered s.ranges = BitRange.covered ranges :=
      joined ▸ BitRange.covered_merge ranges
    refine ⟨BitRange.pairwise_apart_iff.mpr s.apart, s.maximal,
      joined ▸ BitRange.descending_merge ranges, same ▸ BitRange.encard_covered s.apart, s.size_lt,
      same ▸ s.isGreatest_msb, same ▸ s.isLeast_lsb, s.ofRanges_ranges, ?_⟩
    intro other t also
    obtain ⟨_, _, _, joinedToo⟩ := ofRanges_eq_ok_iff.mp also
    rw [← BitRange.merge_eq_iff, ← joined, ← joinedToo]
    exact ⟨congrArg Slice.ranges, ext⟩

/-- Five ranges of which three make one run. The same sequence of single indices makes the same
slice, and another order of them makes another one. -/
theorem ofRanges_normal_staggered :
    ∃ s, ofRanges [.single 0, ⟨7, 5, by decide⟩, .single 4, ⟨3, 2, by decide⟩, ⟨9, 8, by decide⟩] =
        .ok s ∧
      s.ranges = [.single 0, ⟨7, 2, by decide⟩, ⟨9, 8, by decide⟩] ∧ s.size = 9 ∧
      ofRanges s.ranges = .ok s ∧
      (∀ t, ofRanges ([0, 7, 6, 5, 4, 3, 2, 9, 8].map .single) = .ok t → s = t) ∧
      ∀ t, ofRanges ([9, 8, 7, 6, 5, 4, 3, 2, 0].map .single) = .ok t → s ≠ t := by
  obtain ⟨valid, normal⟩ := ofRanges_normal
    [.single 0, ⟨7, 5, by decide⟩, .single 4, ⟨3, 2, by decide⟩, ⟨9, 8, by decide⟩]
  obtain ⟨s, made⟩ := valid.mpr
    ⟨by decide, by decide, BitRange.pairwise_apart_iff.mpr (by decide)⟩
  obtain ⟨_, _, _, _, _, _, _, again, same⟩ := normal s made
  have runs : s.ranges = [.single 0, ⟨7, 2, by decide⟩, ⟨9, 8, by decide⟩] :=
    (ofRanges_eq_ok_iff.mp made).2.2.2.trans (by decide)
  refine ⟨s, made, runs, by rw [size, runs]; rfl, again, ?_, ?_⟩
  · exact fun t also => (same _ t also).mpr (by decide)
  · exact fun t also equal => absurd ((same _ t also).mp equal) (by decide)

end Slice

end MachineDescription
