import MachineDescription.Value.Convert

namespace MachineDescription

namespace BitRange

def ofIndices (msb lsb : Nat) : Except Error BitRange :=
  if maxIndex < msb then .error (.of (.slice (.indexTooHigh msb)))
  else if ordered : lsb ≤ msb then .ok ⟨msb, lsb, ordered⟩
  else .error (.of (.slice (.reversed msb lsb)))

/-- The first reason why ranges are no slice: an index that is too high, or a common index with a
later range. -/
def firstFault : List BitRange → Option SliceFault
  | [] => none
  | r :: rest =>
    if maxIndex < r.msb then some (.indexTooHigh r.msb)
    else match rest.find? r.overlaps with
      | some other => some (.overlapping r other)
      | none => firstFault rest

theorem firstFault_eq_none_iff {ranges : List BitRange} :
    firstFault ranges = none ↔
      (∀ r ∈ ranges, r.msb ≤ maxIndex) ∧ ranges.Pairwise (fun r s => r.overlaps s = false) := by
  induction ranges with
  | nil => simp [firstFault]
  | cons r rest ih =>
    simp only [firstFault, List.mem_cons, forall_eq_or_imp, List.pairwise_cons]
    split
    · simp only [reduceCtorEq, false_iff]
      omega
    · split
      · rename_i other found
        have meet := List.find?_some found
        have member := List.mem_of_find?_eq_some found
        simp only [reduceCtorEq, false_iff, not_and]
        intro _ clear
        rw [clear other member] at meet
        cases meet
      · rename_i absent
        have clear : ∀ s ∈ rest, r.overlaps s = false := by simpa using absent
        rw [ih]
        constructor
        · exact fun later => ⟨⟨by omega, later.1⟩, clear, later.2⟩
        · exact fun all => ⟨all.1.2, all.2.2⟩

end BitRange

namespace Slice

/-- Ranges make a slice when there is at least one, none is beyond the highest index, and no two
have a common index. The first range at fault decides the error. -/
def ofRanges (ranges : List BitRange) : Except Error Slice :=
  if empty : ranges = [] then .error (.of (.slice .noRanges))
  else
    match fault : BitRange.firstFault ranges with
    | some reason => .error (.of (.slice reason))
    | none =>
      have sound := BitRange.firstFault_eq_none_iff.mp fault
      .ok {
        ranges := BitRange.merge ranges
        nonempty := fun none => empty (BitRange.merge_eq_nil_iff.mp none)
        apart := BitRange.apart_merge sound.2
        maximal := BitRange.maximal_merge ranges
        bounded := BitRange.bounded_merge sound.1 }

def ofIndices (msb lsb : Nat) : Except Error Slice := do
  ofRanges [← BitRange.ofIndices msb lsb]

def maskValue (s : Slice) : Value :=
  .wrap (.bits (s.msb + 1)) s.mask

/-- Read `inner`, a slice of the value that `outer` selects, as a slice of the word itself. -/
def apply (outer inner : Slice) : Except Error Slice :=
  if inner.msb < outer.size then
    ofRanges ((BitRange.descending inner.ranges).map fun index =>
      BitRange.single (outer.positions.getD index 0))
  else .error (.of (.slice (.sliceBeyond inner outer)))

end Slice

end MachineDescription
