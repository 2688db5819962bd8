import MachineDescription.Pattern.Basic
import MachineDescription.Proofs.BitWrites
import Mathlib.Data.Finset.Card

namespace MachineDescription

theorem Bits.and_eq_and_iff {a b mask : Nat} :
    a &&& mask = b &&& mask ↔
      ∀ index, mask.testBit index = true → a.testBit index = b.testBit index := by
  constructor
  · intro same index set
    have atIndex := congrArg (Nat.testBit · index) same
    simpa only [Nat.testBit_and, set, Bool.and_true] using atIndex
  · intro agree
    apply Nat.eq_of_testBit_eq
    intro index
    rw [Nat.testBit_and, Nat.testBit_and]
    cases set : mask.testBit index with
    | false => rw [Bool.and_false, Bool.and_false]
    | true => rw [agree index set]

namespace Pattern

/-- The indices that the mask of the pattern selects. -/
def fixed (p : Pattern) : Finset Nat :=
  (Finset.range p.width).filter fun index => p.isFixed index = true

theorem mem_fixed {p : Pattern} {index : Nat} : index ∈ p.fixed ↔ p.isFixed index = true := by
  simp only [fixed, Finset.mem_filter, Finset.mem_range, and_iff_right_iff_imp]
  intro set
  by_contra beyond
  have clear := Bits.lt_limit_iff.mp p.mask_lt index (Nat.not_lt.mp beyond)
  rw [isFixed, clear] at set
  cases set

/-- The specificity of a pattern is the number of bits that it fixes. -/
theorem specificity_eq_card (p : Pattern) : p.specificity = p.fixed.card := by
  simp only [specificity, List.countP_eq_length_filter, fixed, Finset.card, Finset.filter_val,
    Finset.range_val, Multiset.range, Multiset.filter_coe, Multiset.coe_card, Bool.decide_eq_true]

/-- A word is accepted when it has the width of the pattern and its fixed bits. -/
theorem accepts_iff {p : Pattern} {word : Value} :
    p.accepts word = true ↔
      word.width = p.width ∧ ∀ index ∈ p.fixed, word.bit index = p.bits.testBit index := by
  have masked : word.pattern &&& p.mask = p.bits ↔ word.pattern &&& p.mask = p.bits &&& p.mask := by
    rw [p.bits_and_mask]
  simp only [accepts, Bool.and_eq_true, beq_iff_eq, masked, Bits.and_eq_and_iff, mem_fixed]
  rfl

theorem accepts_value (p : Pattern) : p.accepts p.value = true :=
  accepts_iff.mpr ⟨rfl, fun _ _ => rfl⟩

/-- Patterns with a common word overlap. -/
theorem overlaps_of_accepts {p q : Pattern} {word : Value} (left : p.accepts word = true)
    (right : q.accepts word = true) : p.overlaps q = true := by
  obtain ⟨leftWidth, leftBits⟩ := accepts_iff.mp left
  obtain ⟨rightWidth, rightBits⟩ := accepts_iff.mp right
  simp only [overlaps, Bool.and_eq_true, beq_iff_eq]
  refine ⟨leftWidth.symm.trans rightWidth, Bits.and_eq_and_iff.mpr fun index common => ?_⟩
  rw [Nat.testBit_and, Bool.and_eq_true] at common
  have inP := leftBits index (mem_fixed.mpr common.1)
  have inQ := rightBits index (mem_fixed.mpr common.2)
  exact inP.symm.trans inQ

/-- Masks are contained in each other like the sets of fixed bits. -/
theorem and_mask_eq_left_iff {p q : Pattern} : p.mask &&& q.mask = p.mask ↔ p.fixed ⊆ q.fixed := by
  have masked : p.mask &&& q.mask = p.mask ↔ q.mask &&& p.mask = p.mask &&& p.mask := by
    rw [Nat.and_self, Nat.and_comm]
  rw [masked, Bits.and_eq_and_iff]
  constructor
  · intro same index member
    exact mem_fixed.mpr ((same index (mem_fixed.mp member)).trans (mem_fixed.mp member))
  · intro included index set
    have inQ : q.mask.testBit index = true := mem_fixed.mp (included (mem_fixed.mpr set))
    exact inQ.trans set.symm

/-- Fix the bits of a sequence of writes. -/
def fixAll (p : Pattern) (writes : List (Nat × Bool)) : Pattern :=
  writes.foldl (fun p entry => p.fix entry.1 entry.2) p

theorem width_fix (p : Pattern) (index : Nat) (bit : Bool) : (p.fix index bit).width = p.width := by
  unfold fix
  split <;> rfl

theorem width_fixAll (p : Pattern) (writes : List (Nat × Bool)) :
    (p.fixAll writes).width = p.width := by
  induction writes generalizing p with
  | nil => rfl
  | cons entry rest ih => exact (ih (p.fix entry.1 entry.2)).trans (width_fix p _ _)

/-- Writes inside the word fix exactly the bits that they write, to what they leave there. -/
theorem testBit_fixAll {p : Pattern} {writes : List (Nat × Bool)}
    (inside : ∀ entry ∈ writes, entry.1 < p.width) (index : Nat) :
    (p.fixAll writes).isFixed index = ((Bits.written? writes index).isSome || p.isFixed index) ∧
      (p.fixAll writes).bits.testBit index =
        (Bits.written? writes index).getD (p.bits.testBit index) := by
  induction writes generalizing p with
  | nil => exact ⟨rfl, rfl⟩
  | cons entry rest ih =>
    obtain ⟨first, bit⟩ := entry
    have bound : first < p.width := inside (first, bit) List.mem_cons_self
    have later : ∀ entry ∈ rest, entry.1 < (p.fix first bit).width := by
      intro entry member
      rw [width_fix]
      exact inside entry (List.mem_cons_of_mem _ member)
    obtain ⟨mask, bits⟩ := ih later
    have fixMask : (p.fix first bit).isFixed index =
        if first = index then true else p.isFixed index := by
      simp only [fix, dif_pos bound, isFixed, Bits.testBit_put]
    have fixBits : (p.fix first bit).bits.testBit index =
        if first = index then bit else p.bits.testBit index := by
      simp only [fix, dif_pos bound, Bits.testBit_put]
    change ((p.fix first bit).fixAll rest).isFixed index = _ ∧
      ((p.fix first bit).fixAll rest).bits.testBit index = _
    rw [mask, bits, fixMask, fixBits]
    simp only [Bits.written?]
    cases Bits.written? rest index with
    | none => by_cases same : first = index <;> simp [same]
    | some other => simp

end Pattern

end MachineDescription
