import MachineDescription.Proofs.NestedSlices

namespace MachineDescription

namespace Slice

/-- Adjacent ranges become one run, but the number of bits stays. -/
theorem size_of_ofRanges {ranges : List BitRange} {s : Slice}
    (made : ofRanges ranges = .ok s) : s.size = BitRange.totalSize ranges := by
  rw [← length_positions, positions_of_ofRanges made, List.length_reverse,
    BitRange.length_descending]

/-- A run of bits as a slice. -/
theorem exists_ofIndices {msb lsb : Nat} (ordered : lsb ≤ msb) (bound : msb ≤ BitRange.maxIndex) :
    ∃ s, ofIndices msb lsb = .ok s ∧ s.positions = List.range' lsb (msb - lsb + 1) := by
  have range : BitRange.ofIndices msb lsb = .ok ⟨msb, lsb, ordered⟩ := by
    rw [BitRange.ofIndices, if_neg (Nat.not_lt.mpr bound), dif_pos ordered]
  obtain ⟨s, made⟩ := exists_ofRanges_iff.mpr
    ⟨List.cons_ne_nil (⟨msb, lsb, ordered⟩ : BitRange) [],
      fun r member => List.mem_singleton.mp member ▸ bound, List.pairwise_singleton _ _⟩
  refine ⟨s, ?_, ?_⟩
  · rw [ofIndices, range]
    exact made
  · rw [positions_of_ofRanges made, BitRange.descending_cons]
    simp [BitRange.descending, BitRange.indices, BitRange.size]

/-- The width of a slice is a number of 32 bits, and so is the number after its highest index. -/
theorem ofIndices_of_limit_le {width : Nat} (wide : Bits.limit 32 ≤ width) (lsb : Nat) :
    ofIndices (width - 1) lsb = .error (.of (.slice (.indexTooHigh (width - 1)))) := by
  have top : BitRange.maxIndex + 2 = Bits.limit 32 := by decide
  rw [ofIndices, BitRange.ofIndices, if_pos (by omega)]
  rfl

end Slice

namespace Value

/-- The bits of a single range. -/
def sliceRange (v : Value) (r : BitRange) : Except Error Value :=
  Slice.ofRanges [r] >>= v.slice

/-- Ranges read one by one, each result put below what has been read so far. -/
def sliceInTurn (v : Value) (first : BitRange) (rest : List BitRange) : Except Error Value := do
  let top ← v.sliceRange first
  rest.foldlM (fun joined r => do return joined.concat (← v.sliceRange r)) top

/-- The low value stands at the bottom, the high one above its width. -/
theorem bit_concat (high low : Value) (n : Nat) :
    (high.concat low).bit n = if n < low.width then low.bit n else high.bit (n - low.width) := by
  rw [concat, bit_wrap, Nat.testBit_or, Nat.testBit_shiftLeft]
  change (decide (n < high.width + low.width) &&
    (decide (n ≥ low.width) && high.bit (n - low.width) || low.bit n)) = _
  by_cases below : n < low.width
  · have whole : n < high.width + low.width := by omega
    have under : ¬n ≥ low.width := by omega
    rw [if_pos below, decide_eq_true whole, decide_eq_false under, Bool.false_and, Bool.false_or,
      Bool.true_and]
  · have above : n ≥ low.width := by omega
    rw [if_neg below, bit_of_width_le above, Bool.or_false, decide_eq_true above, Bool.true_and]
    by_cases inside : n < high.width + low.width
    · rw [decide_eq_true inside, Bool.true_and]
    · have beyond : high.width ≤ n - low.width := by omega
      rw [decide_eq_false inside, Bool.false_and, bit_of_width_le beyond]

/-- A slice whose positions are those of two others, reads what they read, one above the other. -/
theorem slice_of_positions_append {v high low : Value} {s t u : Slice}
    (order : u.positions = t.positions ++ s.positions) (top : v.slice s = .ok high)
    (bottom : v.slice t = .ok low) : v.slice u = .ok (high.concat low) := by
  obtain ⟨insideHigh, typeHigh, bitsHigh⟩ := slice_eq_ok_iff.mp top
  obtain ⟨insideLow, typeLow, bitsLow⟩ := slice_eq_ok_iff.mp bottom
  have widthHigh : high.width = s.size := congrArg DataType.width typeHigh
  have widthLow : low.width = t.size := congrArg DataType.width typeLow
  refine slice_eq_ok_iff.mpr ⟨?_, ?_, ?_⟩
  · refine Slice.msb_lt_iff.mpr fun index member => ?_
    rw [order] at member
    rcases List.mem_append.mp member with inLow | inHigh
    · exact Slice.msb_lt_iff.mp insideLow index inLow
    · exact Slice.msb_lt_iff.mp insideHigh index inHigh
  · have sizes : u.size = s.size + t.size := by
      rw [← Slice.length_positions, order, List.length_append, Slice.length_positions,
        Slice.length_positions, Nat.add_comm]
    rw [sizes, ← widthHigh, ← widthLow]
    rfl
  · intro n index found
    rw [order] at found
    rw [bit_concat, widthLow, ← Slice.length_positions]
    by_cases below : n < t.positions.length
    · rw [List.getElem?_append_left below] at found
      rw [if_pos below, bitsLow n index found]
    · rw [List.getElem?_append_right (Nat.not_lt.mp below)] at found
      rw [if_neg below, bitsHigh _ index found]

/-- Ranges make a slice of a value when they have no common index and lie within its width, which
is a number of 32 bits. -/
structure Selects (v : Value) (ranges : List BitRange) : Prop where
  narrow : v.width < Bits.limit 32
  inside : ∀ r ∈ ranges, r.msb < v.width
  apart : ranges.Pairwise BitRange.Apart

namespace Selects

variable {v : Value} {ranges : List BitRange}

/-- What is selected makes a slice and can be read. -/
theorem exists_slice (valid : v.Selects ranges) (nonempty : ranges ≠ []) :
    ∃ s w, Slice.ofRanges ranges = .ok s ∧ v.slice s = .ok w := by
  have bounded : ∀ r ∈ ranges, r.msb ≤ BitRange.maxIndex := by
    intro r member
    have below := valid.inside r member
    have room := valid.narrow
    have top : BitRange.maxIndex + 2 = Bits.limit 32 := by decide
    omega
  obtain ⟨s, made⟩ := Slice.exists_ofRanges_iff.mpr
    ⟨nonempty, bounded, BitRange.pairwise_apart_iff.mp valid.apart⟩
  have inside : s.msb < v.width := by
    refine Slice.msb_lt_iff.mpr fun index member => ?_
    rw [Slice.positions_of_ofRanges made, List.mem_reverse, BitRange.mem_descending] at member
    obtain ⟨r, inRanges, inRange⟩ := member
    exact Nat.lt_of_le_of_lt (BitRange.contains_iff.mp inRange).2 (valid.inside r inRanges)
  obtain ⟨w, read⟩ := Value.exists_slice inside
  exact ⟨s, w, made, read⟩

theorem of_sublist {fewer : List BitRange} (valid : v.Selects ranges)
    (sublist : fewer.Sublist ranges) : v.Selects fewer :=
  ⟨valid.narrow, fun r member => valid.inside r (sublist.subset member),
    valid.apart.sublist sublist⟩

/-- One more range goes below what has been read. -/
theorem slice_snoc {done : List BitRange} {r : BitRange} {s : Slice} {w : Value}
    (valid : v.Selects (done ++ [r])) (made : Slice.ofRanges done = .ok s)
    (read : v.slice s = .ok w) :
    ∃ u low, v.sliceRange r = .ok low ∧ Slice.ofRanges (done ++ [r]) = .ok u ∧
      v.slice u = .ok (w.concat low) := by
  have single : v.Selects [r] := valid.of_sublist (List.sublist_append_right done [r])
  obtain ⟨t, low, madeRange, readRange⟩ := single.exists_slice (List.cons_ne_nil r [])
  obtain ⟨u, _, madeAll, _⟩ := valid.exists_slice (List.concat_ne_nil r done)
  refine ⟨u, low, ?_, madeAll, slice_of_positions_append ?_ read readRange⟩
  · rw [sliceRange, madeRange]
    exact readRange
  · rw [Slice.positions_of_ofRanges madeAll, Slice.positions_of_ofRanges madeRange,
      Slice.positions_of_ofRanges made, ← List.reverse_append]
    simp only [BitRange.descending, List.flatMap_append]

/-- Going on range by range from what has been read comes to the slice of all ranges. -/
theorem foldlM_concat {done rest : List BitRange} {s : Slice} {w : Value}
    (valid : v.Selects (done ++ rest)) (made : Slice.ofRanges done = .ok s)
    (read : v.slice s = .ok w) :
    ∃ u all, Slice.ofRanges (done ++ rest) = .ok u ∧ v.slice u = .ok all ∧
      rest.foldlM (fun joined r => do return joined.concat (← v.sliceRange r)) w = .ok all := by
  -- the ranges that are done move one by one from the front of those that are left
  induction rest generalizing done s w with
  | nil =>
    rw [List.append_nil]
    exact ⟨s, w, made, read, rfl⟩
  | cons r rest ih =>
    have split : done ++ r :: rest = done ++ [r] ++ rest := List.append_cons done r rest
    rw [split] at valid ⊢
    obtain ⟨u, low, readRange, madeNext, readNext⟩ :=
      slice_snoc (valid.of_sublist (List.sublist_append_left _ rest)) made read
    obtain ⟨t, all, madeAll, readAll, run⟩ := ih valid madeNext readNext
    refine ⟨t, all, madeAll, readAll, ?_⟩
    rw [List.foldlM_cons, readRange]
    exact run

end Selects

/-- A run of bits of a value, with its lowest bit at the bottom. -/
theorem slice_ofIndices {v w : Value} {msb lsb : Nat} (ordered : lsb ≤ msb)
    (inside : msb < v.width) (bound : msb ≤ BitRange.maxIndex) (type : w.ty = .bits (msb - lsb + 1))
    (bits : ∀ n < msb - lsb + 1, w.bit n = v.bit (lsb + n)) :
    (Slice.ofIndices msb lsb >>= v.slice) = .ok w := by
  obtain ⟨s, made, positions⟩ := Slice.exists_ofIndices ordered bound
  have size : s.size = msb - lsb + 1 := by
    rw [← Slice.length_positions, positions, List.length_range']
  rw [made]
  refine slice_eq_ok_iff.mpr ⟨?_, by rw [type, size], ?_⟩
  · refine Slice.msb_lt_iff.mpr fun index member => ?_
    rw [positions, List.mem_range'_1] at member
    omega
  · intro n index found
    obtain ⟨below, value⟩ := List.getElem?_eq_some_iff.mp found
    rw [Slice.length_positions, size] at below
    simp only [positions, List.getElem_range', Nat.one_mul] at value
    rw [bits n below, value]

/-- A joined value is cut at the width of its low part. -/
theorem slice_concat {high low : Value} (positiveHigh : 0 < high.width)
    (positiveLow : 0 < low.width)
    (narrow : high.width + low.width < Bits.limit 32) :
    (Slice.ofIndices (high.width + low.width - 1) low.width >>= (high.concat low).slice) =
        .ok high.toBits ∧
      (Slice.ofIndices (low.width - 1) 0 >>= (high.concat low).slice) = .ok low.toBits := by
  have width : (high.concat low).width = high.width + low.width := rfl
  have top : BitRange.maxIndex + 2 = Bits.limit 32 := by decide
  constructor
  · have size : high.width + low.width - 1 - low.width + 1 = high.width := by omega
    refine slice_ofIndices (by omega) (by omega) (by omega) (by rw [size]; rfl) fun n _ => ?_
    rw [bit_concat, if_neg (by omega), Nat.add_sub_cancel_left]
    rfl
  · have size : low.width - 1 - 0 + 1 = low.width := by omega
    refine slice_ofIndices (by omega) (by omega) (by omega) (by rw [size]; rfl) fun n below => ?_
    rw [bit_concat, Nat.zero_add, if_pos (by omega)]
    rfl

end Value

end MachineDescription
