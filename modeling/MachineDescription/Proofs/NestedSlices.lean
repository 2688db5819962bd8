import MachineDescription.Proofs.Construction
import MachineDescription.Proofs.FieldBits
import MachineDescription.Proofs.NormalSlices

namespace MachineDescription

namespace Value

/-- Reading through a slice gives the bits at its positions and nothing else. -/
theorem slice_eq_ok_iff {word v : Value} {s : Slice} :
    word.slice s = .ok v ↔
      s.msb < word.width ∧ v.ty = .bits s.size ∧
        ∀ n index, s.positions[n]? = some index → v.bit n = word.bit index := by
  by_cases inside : s.msb < word.width
  · have read : word.slice s =
        .ok (wrap (.bits s.size) (Bits.ofList (s.positions.map word.bit))) := if_pos inside
    have bits : ∀ n index, s.positions[n]? = some index →
        (wrap (.bits s.size) (Bits.ofList (s.positions.map word.bit))).bit n = word.bit index := by
      intro n index found
      obtain ⟨bound, _⟩ := List.getElem?_eq_some_iff.mp found
      rw [Slice.length_positions] at bound
      have small : n < (DataType.bits s.size).width := bound
      rw [bit_wrap, decide_eq_true small, Bits.testBit_ofList, List.getD_eq_getElem?_getD,
        List.getElem?_map, found]
      rfl
    rw [read]
    constructor
    · intro same
      cases same
      exact ⟨inside, rfl, bits⟩
    · rintro ⟨_, type, agree⟩
      refine congrArg Except.ok (eq_of_bits type.symm fun n bound => ?_)
      have length : n < s.positions.length := by
        rw [Slice.length_positions]
        exact bound
      have found := List.getElem?_eq_getElem length
      rw [bits n _ found, agree n _ found]
  · have refused : word.slice s = refuse (.sliceBeyond s word) := if_neg inside
    rw [refused]
    exact iff_of_false nofun fun read => inside read.1

theorem exists_slice {word : Value} {s : Slice} (inside : s.msb < word.width) :
    ∃ v, word.slice s = .ok v :=
  ⟨_, if_pos inside⟩

theorem slice_of_narrow {word : Value} {s : Slice} (narrow : word.width ≤ s.msb) :
    ∃ err, word.slice s = .error err ∧ err.kind = .shape :=
  ⟨_, if_neg (Nat.not_lt.mpr narrow), rfl⟩

end Value

namespace BitRange

theorem descending_map_single (indices : List Nat) : descending (indices.map single) = indices := by
  induction indices with
  | nil => rfl
  | cons index rest ih =>
    rw [List.map_cons, descending_cons, ih]
    simp [indices, size, single]

theorem pairwise_map_single {indices : List Nat} (distinct : indices.Nodup) :
    (indices.map single).Pairwise (fun r s => r.overlaps s = false) := by
  refine List.pairwise_map.mpr (distinct.imp fun {index other} different => ?_)
  rw [overlaps_eq_false_iff]
  rintro common ⟨left, right⟩
  obtain ⟨above, below⟩ := contains_iff.mp left
  obtain ⟨aboveToo, belowToo⟩ := contains_iff.mp right
  simp only [single] at above below aboveToo belowToo
  omega

end BitRange

namespace Slice

variable {outer inner s t : Slice}

theorem eq_of_positions (same : s.positions = t.positions) : s = t := by
  rw [positions_eq_reverse, positions_eq_reverse, List.reverse_inj] at same
  have runs : BitRange.merge s.ranges = BitRange.merge t.ranges := BitRange.merge_eq_iff.mpr same
  rw [s.maximal.merge_eq, t.maximal.merge_eq] at runs
  exact ext runs

theorem positions_of_ofRanges {ranges : List BitRange} (made : ofRanges ranges = .ok s) :
    s.positions = (BitRange.descending ranges).reverse := by
  obtain ⟨_, _, _, joined⟩ := ofRanges_eq_ok_iff.mp made
  rw [positions_eq_reverse, joined, BitRange.descending_merge]

theorem contains_msb (s : Slice) : s.contains s.msb = true :=
  contains_iff.mpr s.isGreatest_msb.1

/-- Whether a slice lies within a width is asked of its highest index, and means all of them. -/
theorem msb_lt_iff {bound : Nat} : s.msb < bound ↔ ∀ index ∈ s.positions, index < bound := by
  constructor
  · intro below index member
    exact Nat.lt_of_le_of_lt (le_msb_of_contains (mem_positions.mp member)) below
  · intro all
    exact all s.msb (mem_positions.mpr s.contains_msb)

theorem le_maxIndex {index : Nat} (member : index ∈ s.positions) : index ≤ BitRange.maxIndex := by
  obtain ⟨r, inRanges, inside⟩ := contains_iff.mp (mem_positions.mp member)
  exact Nat.le_trans (BitRange.contains_iff.mp inside).2 (s.bounded r inRanges)

/-- Below the size there is a position. -/
theorem getElem?_positions {n : Nat} (bound : n < s.size) :
    s.positions[n]? = some (s.positions.getD n 0) := by
  have length : n < s.positions.length := by rwa [length_positions]
  rw [List.getD_eq_getElem?_getD, List.getElem?_eq_getElem length, Option.getD_some]

theorem getD_positions_mem {n : Nat} (bound : n < s.size) : s.positions.getD n 0 ∈ s.positions :=
  List.mem_of_getElem? (getElem?_positions bound)

/-- The positions of the inner slice, looked up in the outer one, are all different. -/
theorem nodup_map_positions (inside : inner.msb < outer.size) :
    (inner.positions.map (outer.positions.getD · 0)).Nodup := by
  have below := msb_lt_iff.mp inside
  refine List.Nodup.map_on ?_ inner.nodup_positions
  intro n inN m inM same
  have atN := getElem?_positions (below n inN)
  have atM := getElem?_positions (below m inM)
  rw [← same] at atM
  have bound : n < outer.positions.length := by
    rw [length_positions]
    exact below n inN
  exact (List.getElem?_inj bound outer.nodup_positions).mp (atN.trans atM.symm)

/-- Applying a slice looks up the positions of the inner slice among those of the outer one. -/
theorem exists_apply (inside : inner.msb < outer.size) :
    ∃ s, outer.apply inner = .ok s ∧
      s.positions = inner.positions.map (outer.positions.getD · 0) := by
  have below := msb_lt_iff.mp inside
  -- the ranges of the result are the single positions, in the order of the inner slice
  have order : (BitRange.descending inner.ranges).map (outer.positions.getD · 0) =
      (inner.positions.map (outer.positions.getD · 0)).reverse := by
    rw [← List.map_reverse, positions_eq_reverse inner, List.reverse_reverse]
  have valid : ∃ s, ofRanges
      (((inner.positions.map (outer.positions.getD · 0)).reverse).map BitRange.single) = .ok s := by
    refine exists_ofRanges_iff.mpr ⟨?_, ?_, ?_⟩
    · intro empty
      have nothing : inner.positions = [] := by
        simpa only [List.map_eq_nil_iff, List.reverse_eq_nil_iff] using empty
      have top := mem_positions.mpr inner.contains_msb
      rw [nothing] at top
      cases top
    · intro r member
      obtain ⟨index, listed, rfl⟩ := List.mem_map.mp member
      obtain ⟨n, inInner, rfl⟩ := List.mem_map.mp (List.mem_reverse.mp listed)
      exact le_maxIndex (getD_positions_mem (below n inInner))
    · exact BitRange.pairwise_map_single (List.nodup_reverse.mpr (nodup_map_positions inside))
  obtain ⟨s, made⟩ := valid
  refine ⟨s, ?_, ?_⟩
  · rw [apply, if_pos inside, ← made, ← order, List.map_map]
    rfl
  · rw [positions_of_ofRanges made, BitRange.descending_map_single, List.reverse_reverse]

/-- The inner slice has to lie within the outer one as a whole. -/
theorem apply_of_beyond (beyond : outer.size ≤ inner.msb) :
    ∃ err, outer.apply inner = .error err ∧ err.kind = .shape :=
  ⟨_, if_neg (Nat.not_lt.mpr beyond), rfl⟩

/-- The two cases together; what is asked of two slices is asked of nothing else. -/
theorem apply_eq_ok_iff :
    outer.apply inner = .ok s ↔
      inner.msb < outer.size ∧ s.positions = inner.positions.map (outer.positions.getD · 0) := by
  by_cases inside : inner.msb < outer.size
  · obtain ⟨t, applied, looked⟩ := exists_apply inside
    rw [applied]
    constructor
    · intro same
      cases same
      exact ⟨inside, looked⟩
    · rintro ⟨_, same⟩
      exact congrArg Except.ok (eq_of_positions (looked.trans same.symm))
  · obtain ⟨err, refused, _⟩ := apply_of_beyond (Nat.not_lt.mp inside)
    rw [refused]
    exact iff_of_false nofun fun valid => inside valid.1

theorem size_of_apply (applied : outer.apply inner = .ok s) : s.size = inner.size := by
  rw [← length_positions, (apply_eq_ok_iff.mp applied).2, List.length_map, length_positions]

/-- An index of the result is the position, in the outer slice, of an index of the inner one. -/
theorem mem_positions_of_apply (applied : outer.apply inner = .ok s) {index : Nat} :
    index ∈ s.positions ↔ ∃ n, inner.contains n = true ∧ outer.positions[n]? = some index := by
  obtain ⟨inside, looked⟩ := apply_eq_ok_iff.mp applied
  have below := msb_lt_iff.mp inside
  rw [looked, List.mem_map]
  constructor
  · rintro ⟨n, member, rfl⟩
    exact ⟨n, mem_positions.mp member, getElem?_positions (below n member)⟩
  · rintro ⟨n, member, found⟩
    refine ⟨n, mem_positions.mpr member, ?_⟩
    rw [List.getD_eq_getElem?_getD, found, Option.getD_some]

/-- Reading through the result is reading through the outer slice and then the inner one. -/
theorem slice_of_apply {word v w : Value} (applied : outer.apply inner = .ok s)
    (whole : word.slice outer = .ok v) (part : v.slice inner = .ok w) : word.slice s = .ok w := by
  obtain ⟨inside, looked⟩ := apply_eq_ok_iff.mp applied
  obtain ⟨reach, _, outerBits⟩ := Value.slice_eq_ok_iff.mp whole
  obtain ⟨_, type, innerBits⟩ := Value.slice_eq_ok_iff.mp part
  refine Value.slice_eq_ok_iff.mpr ⟨?_, ?_, ?_⟩
  · refine msb_lt_iff.mpr fun index member => ?_
    obtain ⟨n, _, found⟩ := (mem_positions_of_apply applied).mp member
    exact msb_lt_iff.mp reach index (List.mem_of_getElem? found)
  · rw [type, size_of_apply applied]
  · intro n index found
    rw [looked, List.getElem?_map, Option.map_eq_some_iff] at found
    obtain ⟨middle, atN, rfl⟩ := found
    have bound := msb_lt_iff.mp inside middle (List.mem_of_getElem? atN)
    rw [innerBits n middle atN, outerBits middle _ (getElem?_positions bound)]

/-- As far as the second slice lies within the first, it does not matter which two are applied
first. -/
theorem apply_assoc {a b c : Slice} (inside : b.msb < a.size) :
    (a.apply b >>= (·.apply c)).toOption = (b.apply c >>= a.apply).toOption := by
  obtain ⟨ab, first, lookedAB⟩ := exists_apply inside
  have size := size_of_apply first
  by_cases reach : c.msb < b.size
  · obtain ⟨bc, second, lookedBC⟩ := exists_apply reach
    have below : bc.msb < a.size := by
      refine msb_lt_iff.mpr fun index member => ?_
      obtain ⟨n, _, found⟩ := (mem_positions_of_apply second).mp member
      exact msb_lt_iff.mp inside index (List.mem_of_getElem? found)
    obtain ⟨abc, third, lookedABC⟩ := exists_apply below
    have other : ab.apply c = .ok abc := by
      refine apply_eq_ok_iff.mpr ⟨size.symm ▸ reach, ?_⟩
      rw [lookedABC, lookedBC, List.map_map]
      refine List.map_congr_left fun n member => ?_
      have atN := getElem?_positions (msb_lt_iff.mp reach n member)
      rw [lookedAB, Function.comp_apply, List.getD_eq_getElem?_getD (l := List.map _ _),
        List.getElem?_map, atN]
      rfl
    rw [first, second]
    exact congrArg Except.toOption (other.trans third.symm)
  · have beyond : b.size ≤ c.msb := Nat.not_lt.mp reach
    obtain ⟨_, left, _⟩ : ∃ err, ab.apply c = .error err ∧ err.kind = .shape :=
      apply_of_beyond (size.symm ▸ beyond)
    obtain ⟨_, right, _⟩ := apply_of_beyond beyond
    rw [first, right]
    change (ab.apply c).toOption = none
    rw [left]
    rfl

/-- Slices applied from the right give a slice exactly when each bit of the last one is a bit of the
second that the first one has. -/
theorem exists_apply_apply_iff {a b c : Slice} :
    (∃ s, (b.apply c >>= a.apply) = .ok s) ↔
      ∀ n, c.contains n = true → ∃ index, b.positions[n]? = some index ∧ index < a.size := by
  constructor
  · rintro ⟨s, applied⟩ n member
    obtain ⟨bc, second, third⟩ := exists_ok_of_bind applied
    have below := msb_lt_iff.mp (apply_eq_ok_iff.mp third).1
    have reach := (apply_eq_ok_iff.mp second).1
    have found := getElem?_positions (msb_lt_iff.mp reach n (mem_positions.mpr member))
    exact ⟨_, found, below _ ((mem_positions_of_apply second).mpr ⟨n, member, found⟩)⟩
  · intro all
    have reach : c.msb < b.size := by
      obtain ⟨index, found, _⟩ := all c.msb c.contains_msb
      obtain ⟨bound, _⟩ := List.getElem?_eq_some_iff.mp found
      rwa [length_positions] at bound
    obtain ⟨bc, second, _⟩ := exists_apply reach
    have below : bc.msb < a.size := by
      refine msb_lt_iff.mpr fun index member => ?_
      obtain ⟨n, inside, found⟩ := (mem_positions_of_apply second).mp member
      obtain ⟨same, foundToo, small⟩ := all n inside
      cases found.symm.trans foundToo
      exact small
    obtain ⟨s, third, _⟩ := exists_apply below
    rw [second]
    exact ⟨s, third⟩

/-- A slice that lies within another one can be applied to it, and reading a word through the result
is reading through one after the other; a slice that reaches beyond is refused both ways. Applying
three slices gives the same from either side, as far as the second lies within the first. If it does
not, applying from the left fails, and from the right it still succeeds when all the bits that the
last slice selects lie within the first one. -/
theorem apply_nested (a b c : Slice) :
    (∀ word : Value, a.msb < word.width →
      (b.msb < a.size →
        ∃ s v w, a.apply b = .ok s ∧ word.slice a = .ok v ∧ v.slice b = .ok w ∧
          word.slice s = .ok w) ∧
      (a.size ≤ b.msb →
        (∃ err, a.apply b = .error err ∧ err.kind = .shape) ∧
          ∃ v err, word.slice a = .ok v ∧ v.slice b = .error err ∧ err.kind = .shape)) ∧
    (b.msb < a.size →
      (a.apply b >>= (·.apply c)).toOption = (b.apply c >>= a.apply).toOption) ∧
    (a.size ≤ b.msb →
      (a.apply b >>= (·.apply c)).toOption = none ∧
        ((∃ s, (b.apply c >>= a.apply) = .ok s) ↔
          ∀ n, c.contains n = true → ∃ index, b.positions[n]? = some index ∧ index < a.size)) := by
  refine ⟨fun word reach => ?_, apply_assoc, fun beyond => ⟨?_, exists_apply_apply_iff⟩⟩
  · obtain ⟨v, whole⟩ := Value.exists_slice reach
    have width : v.width = a.size := congrArg DataType.width (Value.slice_eq_ok_iff.mp whole).2.1
    constructor
    · intro inside
      obtain ⟨s, applied, _⟩ := exists_apply inside
      obtain ⟨w, part⟩ := Value.exists_slice (width.symm ▸ inside)
      exact ⟨s, v, w, applied, whole, part, slice_of_apply applied whole part⟩
    · intro beyond
      obtain ⟨err, refused, kind⟩ := Value.slice_of_narrow (width.symm ▸ beyond)
      exact ⟨apply_of_beyond beyond, v, err, whole, refused, kind⟩
  · obtain ⟨err, refused, _⟩ := apply_of_beyond beyond
    rw [refused]
    rfl

/-- The bits from zero up. -/
def low (msb : Nat) (bound : msb ≤ BitRange.maxIndex) : Slice where
  ranges := [⟨msb, 0, Nat.zero_le msb⟩]
  nonempty := List.cons_ne_nil _ _
  apart := List.pairwise_singleton _ _
  maximal := trivial
  bounded := fun _ member => List.mem_singleton.mp member ▸ bound

/-- Two pairs of bits, the lower pair on top. -/
def swapped : Slice where
  ranges := [⟨1, 0, by decide⟩, ⟨3, 2, by decide⟩]
  nonempty := by decide
  apart := by decide
  maximal := ⟨by decide, trivial⟩
  bounded := by decide

/-- Swapping twice gives one run of four bits, and reading swapped pairs twice the value itself. -/
theorem apply_nested_swapped :
    swapped.msb < (Value.wrap (.sint 4) 0b0111).width ∧ swapped.msb < swapped.size ∧
      swapped.apply swapped = .ok (low 3 (by decide)) ∧
      ∃ s v w, swapped.apply swapped = .ok s ∧
        (Value.wrap (.sint 4) 0b0111).slice swapped = .ok v ∧ v.pattern = 0b1101 ∧
        v.slice swapped = .ok w ∧ w.pattern = 0b0111 ∧
        (Value.wrap (.sint 4) 0b0111).slice s = .ok w := by
  have reach : swapped.msb < (Value.wrap (.sint 4) 0b0111).width := by decide
  have inside : swapped.msb < swapped.size := by decide
  obtain ⟨s, v, w, applied, whole, part, both⟩ :=
    ((apply_nested swapped swapped swapped).1 (.wrap (.sint 4) 0b0111) reach).1 inside
  have swappedBits : v = .wrap (.bits 4) 0b1101 := Except.ok.inj (whole.symm.trans rfl)
  subst swappedBits
  have sameBits : w = .wrap (.bits 4) 0b0111 := Except.ok.inj (part.symm.trans rfl)
  subst sameBits
  exact ⟨reach, inside, rfl, s, _, _, applied, whole, rfl, part, rfl, both⟩

/-- A byte is no part of four bits, but the lowest bit of a byte is. -/
theorem low_bit_of_byte_of_nibble :
    ((low 3 (by decide)).apply (low 7 (by decide)) >>= (·.apply (low 0 (by decide)))).toOption =
        none ∧
      ((low 7 (by decide)).apply (low 0 (by decide)) >>= (low 3 (by decide)).apply).toOption =
        some (low 0 (by decide)) ∧
      ¬∀ a b c : Slice,
        (a.apply b >>= (·.apply c)).toOption = (b.apply c >>= a.apply).toOption := by
  refine ⟨rfl, rfl, fun assoc => ?_⟩
  have same := assoc (low 3 (by decide)) (low 7 (by decide)) (low 0 (by decide))
  exact Option.some_ne_none _ (same.symm.trans rfl)

end Slice

end MachineDescription
