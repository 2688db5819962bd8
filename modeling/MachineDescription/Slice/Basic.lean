import MachineDescription.Error.Kind
import MachineDescription.Slice.Cursor

namespace MachineDescription

namespace BitRange

/-- The highest index in a slice. The index after it is still a 32-bit width. -/
def maxIndex : Nat :=
  Bits.limit 32 - 2

/-- No range continues the one before it downward. -/
def Maximal : List BitRange → Prop
  | r :: s :: rest => s.msb + 1 ≠ r.lsb ∧ Maximal (s :: rest)
  | _ => True

/-- The indices of the ranges, each range from its highest index down. -/
def descending (ranges : List BitRange) : List Nat :=
  ranges.flatMap (fun r => r.indices.reverse)

def totalSize : List BitRange → Nat
  | [] => 0
  | r :: rest => r.size + totalSize rest

/-- Take one range more, where the runs made so far stand with the last one first. The range
lengthens the last run downward if it continues it, and begins a run of its own if not. -/
def lengthen : List BitRange → BitRange → List BitRange
  | [], r => [r]
  | last :: older, r =>
    if touch : r.msb + 1 = last.lsb then
      ⟨last.msb, r.lsb, by
        have := last.lsb_le_msb
        have := r.lsb_le_msb
        omega⟩ :: older
    else r :: last :: older

/-- Join every range to the one before it that it continues downward. -/
def merge (ranges : List BitRange) : List BitRange :=
  (ranges.foldl lengthen []).reverse

/-- Put a range in front of runs, joined to the first of them if that one continues it. -/
def precede (r : BitRange) : List BitRange → List BitRange
  | [] => [r]
  | s :: tail =>
    if touch : s.msb + 1 = r.lsb then
      ⟨r.msb, s.lsb, by
        have := r.lsb_le_msb
        have := s.lsb_le_msb
        omega⟩ :: tail
    else r :: s :: tail

/-- A range that continues another one can be joined to it before or after what follows both. -/
theorem precede_joined {r s : BitRange} (touch : s.msb + 1 = r.lsb) (ordered : s.lsb ≤ r.msb)
    (runs : List BitRange) : precede r (precede s runs) = precede ⟨r.msb, s.lsb, ordered⟩ runs := by
  cases runs with
  | nil => simp only [precede, dif_pos touch]
  | cons t tail =>
    by_cases continued : t.msb + 1 = s.lsb
    · simp only [precede, dif_pos continued, dif_pos touch]
    · simp only [precede, dif_neg continued, dif_pos touch]

theorem precede_apart {r s : BitRange} (apart : s.msb + 1 ≠ r.lsb) (runs : List BitRange) :
    precede r (precede s runs) = r :: precede s runs := by
  cases runs with
  | nil => simp only [precede, dif_neg apart]
  | cons t tail =>
    by_cases continued : t.msb + 1 = s.lsb
    · simp only [precede, dif_pos continued, dif_neg apart]
    · simp only [precede, dif_neg continued, dif_neg apart]

/-- Only the last run is still open: what comes later is merged by itself and then put behind it. -/
theorem foldl_lengthen (last : BitRange) (older ranges : List BitRange) :
    (ranges.foldl lengthen (last :: older)).reverse =
      older.reverse ++ precede last (merge ranges) := by
  induction ranges generalizing last older with
  | nil => exact List.reverse_cons
  | cons r rest ih =>
    have next : merge (r :: rest) = precede r (merge rest) := ih r []
    rw [List.foldl_cons, next]
    by_cases touch : r.msb + 1 = last.lsb
    · rw [lengthen, dif_pos touch, ih, precede_joined touch]
    · rw [lengthen, dif_neg touch, ih, precede_apart touch, List.reverse_cons, List.append_assoc]
      rfl

@[simp]
theorem merge_nil : merge [] = [] := rfl

theorem merge_cons (r : BitRange) (rest : List BitRange) :
    merge (r :: rest) = precede r (merge rest) :=
  foldl_lengthen r [] rest

theorem length_descending (ranges : List BitRange) :
    (descending ranges).length = totalSize ranges := by
  induction ranges with
  | nil => rfl
  | cons r rest ih =>
    change (r.indices.reverse ++ descending rest).length = _
    rw [List.length_append, List.length_reverse, length_indices, ih, totalSize]

theorem precede_ne_nil (r : BitRange) (runs : List BitRange) : precede r runs ≠ [] := by
  unfold precede
  split
  · exact List.cons_ne_nil r []
  · split <;> exact List.cons_ne_nil _ _

theorem merge_eq_nil_iff {ranges : List BitRange} : merge ranges = [] ↔ ranges = [] := by
  cases ranges with
  | nil => simp
  | cons r rest => simp [merge_cons, precede_ne_nil]

theorem Maximal.precede {runs : List BitRange} (maximal : Maximal runs) (r : BitRange) :
    Maximal (r.precede runs) := by
  unfold BitRange.precede
  split
  · trivial
  · rename_i s tail
    split
    · cases tail with
      | nil => trivial
      | cons t tail => exact maximal
    · exact ⟨by assumption, maximal⟩

theorem maximal_merge (ranges : List BitRange) : Maximal (merge ranges) := by
  induction ranges with
  | nil => trivial
  | cons r rest ih =>
    rw [merge_cons]
    exact ih.precede r

theorem exists_contains_precede {r : BitRange} {runs : List BitRange} {index : Nat} :
    (∃ s ∈ precede r runs, s.contains index = true) ↔
      r.contains index = true ∨ ∃ s ∈ runs, s.contains index = true := by
  unfold precede
  split
  · simp
  · rename_i s tail
    have := r.lsb_le_msb
    have := s.lsb_le_msb
    split
    · simp only [List.mem_cons, exists_eq_or_imp, contains_iff]
      constructor
      · rintro (inside | later)
        · by_cases low : index ≤ s.msb
          · exact Or.inr (Or.inl (by omega))
          · exact Or.inl (by omega)
        · exact Or.inr (Or.inr later)
      · rintro (inside | inside | later)
        · exact Or.inl (by omega)
        · exact Or.inl (by omega)
        · exact Or.inr later
    · simp only [List.mem_cons, exists_eq_or_imp]

theorem exists_contains_merge {ranges : List BitRange} {index : Nat} :
    (∃ r ∈ merge ranges, r.contains index = true) ↔ ∃ r ∈ ranges, r.contains index = true := by
  induction ranges with
  | nil => simp
  | cons r rest ih =>
    rw [merge_cons, exists_contains_precede, ih]
    simp only [List.mem_cons, exists_eq_or_imp]

theorem descending_precede (r : BitRange) (runs : List BitRange) :
    descending (precede r runs) = r.indices.reverse ++ descending runs := by
  unfold precede
  split
  · rfl
  · rename_i s tail
    split
    · simp only [descending, List.flatMap_cons, ← List.append_assoc, ← List.reverse_append]
      congr 2
      have := r.lsb_le_msb
      have := s.lsb_le_msb
      have next : r.lsb = s.lsb + 1 * s.size := by simp only [size]; omega
      have total : r.msb - s.lsb + 1 = s.size + r.size := by simp only [size]; omega
      simp only [indices]
      rw [next, List.range'_append, ← total]
      rfl
    · rfl

theorem descending_merge (ranges : List BitRange) :
    descending (merge ranges) = descending ranges := by
  induction ranges with
  | nil => rfl
  | cons r rest ih =>
    rw [merge_cons, descending_precede, ih]
    rfl

theorem apart_precede {r : BitRange} {runs : List BitRange}
    (clear : ∀ s ∈ runs, r.overlaps s = false)
    (apart : runs.Pairwise (fun s t => s.overlaps t = false)) :
    (precede r runs).Pairwise (fun s t => s.overlaps t = false) := by
  unfold precede
  split
  · exact List.pairwise_singleton _ _
  · rename_i s tail
    obtain ⟨headClear, tailClear⟩ := List.pairwise_cons.mp apart
    split
    · refine List.pairwise_cons.mpr ⟨?_, tailClear⟩
      intro t member
      have fromR := clear t (List.mem_cons_of_mem _ member)
      have fromS := headClear t member
      simp only [overlaps, Bool.and_eq_false_iff, decide_eq_false_iff_not] at fromR fromS ⊢
      have := r.lsb_le_msb
      have := s.lsb_le_msb
      have := t.lsb_le_msb
      omega
    · exact List.pairwise_cons.mpr ⟨clear, apart⟩

theorem apart_merge {ranges : List BitRange}
    (apart : ranges.Pairwise (fun r s => r.overlaps s = false)) :
    (merge ranges).Pairwise (fun r s => r.overlaps s = false) := by
  induction ranges with
  | nil => exact List.Pairwise.nil
  | cons r rest ih =>
    obtain ⟨first, later⟩ := List.pairwise_cons.mp apart
    have clear : ∀ s ∈ merge rest, r.overlaps s = false := by
      intro s member
      cases common : r.overlaps s with
      | false => rfl
      | true =>
        obtain ⟨index, inR, inS⟩ := overlaps_iff.mp common
        obtain ⟨t, inRest, inT⟩ := exists_contains_merge.mp ⟨s, member, inS⟩
        have := first t inRest
        rw [overlaps_iff.mpr ⟨index, inR, inT⟩] at this
        exact this
    rw [merge_cons]
    exact apart_precede clear (ih later)

theorem bounded_merge {ranges : List BitRange} {bound : Nat}
    (bounded : ∀ r ∈ ranges, r.msb ≤ bound) : ∀ r ∈ merge ranges, r.msb ≤ bound := by
  intro r member
  obtain ⟨s, inRanges, inside⟩ := exists_contains_merge.mp ⟨r, member, r.contains_msb⟩
  exact Nat.le_trans (contains_iff.mp inside).2 (bounded s inRanges)

end BitRange

/-- Indices of a word, as maximal descending runs without a common index. The first range holds the
most significant bits of the value that is read through the slice. Whatever way the same sequence of
indices was cut into ranges, one slice results. -/
structure Slice where
  ranges : List BitRange
  nonempty : ranges ≠ []
  apart : ranges.Pairwise (fun r s => r.overlaps s = false)
  maximal : BitRange.Maximal ranges
  bounded : ∀ r ∈ ranges, r.msb ≤ BitRange.maxIndex

namespace Slice

theorem ext {s t : Slice} (ranges : s.ranges = t.ranges) : s = t := by
  cases s; cases t; cases ranges; rfl

instance : DecidableEq Slice := fun s t =>
  if same : s.ranges = t.ranges then isTrue (ext same)
  else isFalse (fun equal => same (by rw [equal]))

def size (s : Slice) : Nat :=
  BitRange.totalSize s.ranges

def msb (s : Slice) : Nat :=
  (s.ranges.map BitRange.msb).max?.getD 0

def lsb (s : Slice) : Nat :=
  (s.ranges.map BitRange.lsb).min?.getD 0

def isContinuous (s : Slice) : Bool :=
  s.ranges.length == 1

def contains (s : Slice) (index : Nat) : Bool :=
  s.ranges.any (·.contains index)

def overlaps (s t : Slice) : Bool :=
  s.ranges.any (fun r => t.ranges.any r.overlaps)

/-- The index in the word of each bit of the value, least significant value bit first. -/
def positions (s : Slice) : List Nat :=
  s.ranges.reverse.flatMap BitRange.indices

/-- The way through the indices in ascending order, whatever the order of the ranges. -/
def cursor (s : Slice) : BitRange.Cursor :=
  ⟨s.ranges.mergeSort (fun r t => r.lsb ≤ t.lsb), none⟩

def indices (s : Slice) : List Nat :=
  s.cursor.yields

/-- The number with exactly the bits at the indices of the slice. -/
def mask (s : Slice) : Nat :=
  s.indices.foldl (fun pattern index => Bits.put pattern index true) 0

def render (s : Slice) : String :=
  "[" ++ ", ".intercalate (s.ranges.map BitRange.render) ++ "]"

instance : ToString Slice := ⟨render⟩

/-- The positions are the indices in the order of the ranges, turned round. -/
theorem positions_eq_reverse (s : Slice) :
    s.positions = (BitRange.descending s.ranges).reverse := by
  simp only [positions, BitRange.descending]
  induction s.ranges with
  | nil => rfl
  | cons r rest ih => simp [List.flatMap_append, ih]

theorem mem_positions {s : Slice} {index : Nat} :
    index ∈ s.positions ↔ s.contains index = true := by
  simp [positions, contains, BitRange.mem_indices, BitRange.contains_iff]

@[simp]
theorem length_positions (s : Slice) : s.positions.length = s.size := by
  rw [positions_eq_reverse, List.length_reverse, BitRange.length_descending, size]

end Slice

/-- Why a range or a slice is refused. -/
inductive SliceFault where
  | reversed (msb lsb : Nat)
  | indexTooHigh (index : Nat)
  | noRanges
  | overlapping (range other : BitRange)
  | sliceBeyond (inner outer : Slice)

namespace SliceFault

def kind : SliceFault → ErrorKind
  | indexTooHigh _ => .range
  | reversed .. | noRanges | overlapping .. | sliceBeyond .. => .shape

def message : SliceFault → String
  | reversed msb lsb => s!"part {msb}..{lsb} has its msb below its lsb"
  | indexTooHigh index => s!"bit index {index} exceeds the highest index {BitRange.maxIndex}"
  | noRanges => "bit slice requires at least one part"
  | overlapping range other => s!"bit slice parts {range} and {other} overlap"
  | sliceBeyond inner outer => s!"slice {inner} exceeds the {outer.size} bits of slice {outer}"

def subjects : SliceFault → List (String × String)
  | reversed msb lsb => [("msb", toString msb), ("lsb", toString lsb)]
  | indexTooHigh index => [("index", toString index)]
  | noRanges | sliceBeyond .. => []
  | overlapping range other => [("part", range.render), ("other", other.render)]

end SliceFault

end MachineDescription
