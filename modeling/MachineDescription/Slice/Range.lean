import MachineDescription.Bits

namespace MachineDescription

/-- The bit indices from `lsb` up to `msb`. A range is written with its highest index first. -/
structure BitRange where
  msb : Nat
  lsb : Nat
  lsb_le_msb : lsb ≤ msb

namespace BitRange

theorem ext {r s : BitRange} (msb : r.msb = s.msb) (lsb : r.lsb = s.lsb) : r = s := by
  cases r; cases s; cases msb; cases lsb; rfl

instance : DecidableEq BitRange := fun r s =>
  if same : r.msb = s.msb ∧ r.lsb = s.lsb then isTrue (ext same.1 same.2)
  else isFalse (fun equal => same (by cases equal; exact ⟨rfl, rfl⟩))

def single (index : Nat) : BitRange :=
  ⟨index, index, Nat.le_refl _⟩

def size (r : BitRange) : Nat :=
  r.msb - r.lsb + 1

def isSingle (r : BitRange) : Bool :=
  r.msb == r.lsb

def contains (r : BitRange) (index : Nat) : Bool :=
  r.lsb ≤ index && index ≤ r.msb

def overlaps (r s : BitRange) : Bool :=
  r.lsb ≤ s.msb && s.lsb ≤ r.msb

def isWithin (r s : BitRange) : Bool :=
  s.lsb ≤ r.lsb && r.msb ≤ s.msb

/-- The range that covers two ranges that overlap or touch. -/
def join? (r s : BitRange) : Option BitRange :=
  if r.lsb ≤ s.msb + 1 ∧ s.lsb ≤ r.msb + 1 then
    some ⟨max r.msb s.msb, min r.lsb s.lsb, by
      have := r.lsb_le_msb
      omega⟩
  else none

def indices (r : BitRange) : List Nat :=
  List.range' r.lsb r.size

def render (r : BitRange) : String :=
  if r.isSingle then s!"{r.msb}" else s!"{r.msb}..{r.lsb}"

instance : ToString BitRange := ⟨render⟩

@[simp]
theorem length_indices (r : BitRange) : r.indices.length = r.size := by
  simp [indices]

theorem mem_indices {r : BitRange} {index : Nat} :
    index ∈ r.indices ↔ r.lsb ≤ index ∧ index ≤ r.msb := by
  have := r.lsb_le_msb
  simp only [indices, size, List.mem_range'_1]
  omega

theorem contains_iff {r : BitRange} {index : Nat} :
    r.contains index = true ↔ r.lsb ≤ index ∧ index ≤ r.msb := by
  simp [contains]

theorem contains_msb (r : BitRange) : r.contains r.msb = true :=
  contains_iff.mpr ⟨r.lsb_le_msb, Nat.le_refl _⟩

theorem contains_lsb (r : BitRange) : r.contains r.lsb = true :=
  contains_iff.mpr ⟨Nat.le_refl _, r.lsb_le_msb⟩

theorem overlaps_iff {r s : BitRange} :
    r.overlaps s = true ↔ ∃ index, r.contains index = true ∧ s.contains index = true := by
  have := r.lsb_le_msb
  have := s.lsb_le_msb
  simp only [overlaps, contains, Bool.and_eq_true, decide_eq_true_eq]
  constructor
  · intro common
    exact ⟨max r.lsb s.lsb, by omega⟩
  · rintro ⟨index, inside⟩
    omega

theorem overlaps_comm (r s : BitRange) : r.overlaps s = s.overlaps r := by
  simp only [overlaps, Bool.and_comm]

end BitRange

end MachineDescription
