import MachineDescription.Proofs.FieldBits
import MachineDescription.Proofs.PatternBits
import Mathlib.Data.Set.Lattice
import Mathlib.Order.CompletePartialOrder

namespace MachineDescription.Pattern

/-- The set of words that a pattern stands for. -/
def words (p : Pattern) : Set Value :=
  {word | p.accepts word = true}

variable {p q : Pattern}

theorem mem_words {word : Value} :
    word ∈ p.words ↔
      word.width = p.width ∧ ∀ index ∈ p.fixed, word.bit index = p.bits.testBit index :=
  accepts_iff

theorem lt_width_of_mem_fixed {index : Nat} (fixed : index ∈ p.fixed) : index < p.width :=
  Finset.mem_range.mp (Finset.mem_filter.mp fixed).1

theorem testBit_bits_of_open {index : Nat} (isOpen : index ∉ p.fixed) :
    p.bits.testBit index = false := by
  have clear : p.mask.testBit index = false :=
    Bool.eq_false_iff.mpr fun set => isOpen (mem_fixed.mpr set)
  rw [← p.bits_and_mask, Nat.testBit_and, clear, Bool.and_false]

/-- Whether a plain number is a word of a pattern depends on its bits alone; what is above the width
is cut off. -/
theorem wrap_mem_words_iff {width n : Nat} (same : width = p.width) :
    Value.wrap (.bits width) n ∈ p.words ↔
      ∀ index ∈ p.fixed, n.testBit index = p.bits.testBit index := by
  refine mem_words.trans ((and_iff_right same).trans (forall₂_congr fun index fixed => ?_))
  have inside : index < width := same ▸ lt_width_of_mem_fixed fixed
  rw [Value.bit_wrap, DataType.width, decide_eq_true inside, Bool.true_and]

/-- Overlapping patterns have one width, and agree on the bits that both fix. -/
theorem overlaps_iff_agree :
    p.overlaps q = true ↔
      p.width = q.width ∧
        ∀ index ∈ p.fixed, index ∈ q.fixed → p.bits.testBit index = q.bits.testBit index := by
  simp only [overlaps, Bool.and_eq_true, beq_iff_eq, Bits.and_eq_and_iff, Nat.testBit_and, and_imp,
    mem_fixed]
  rfl

/-- The fixed bits of both patterns together make a word of both. -/
theorem overlaps_iff_inter : p.overlaps q = true ↔ (p.words ∩ q.words).Nonempty := by
  constructor
  · intro overlap
    obtain ⟨width, agree⟩ := overlaps_iff_agree.mp overlap
    refine ⟨.wrap (.bits p.width) (p.bits ||| q.bits), (wrap_mem_words_iff rfl).mpr ?_,
      (wrap_mem_words_iff width).mpr ?_⟩
    · intro index inP
      rw [Nat.testBit_or]
      by_cases inQ : index ∈ q.fixed
      · rw [← agree index inP inQ, Bool.or_self]
      · rw [testBit_bits_of_open inQ, Bool.or_false]
    · intro index inQ
      rw [Nat.testBit_or]
      by_cases inP : index ∈ p.fixed
      · rw [agree index inP inQ, Bool.or_self]
      · rw [testBit_bits_of_open inP, Bool.false_or]
  · rintro ⟨word, left, right⟩
    exact overlaps_of_accepts left right

/-- With a word in common, the words of one pattern are among those of the other if it fixes all
that the other one fixes. -/
theorem words_subset_iff (common : (p.words ∩ q.words).Nonempty) :
    p.words ⊆ q.words ↔ q.fixed ⊆ p.fixed := by
  obtain ⟨shared, left, right⟩ := common
  obtain ⟨widthP, bitsP⟩ := mem_words.mp left
  obtain ⟨widthQ, bitsQ⟩ := mem_words.mp right
  constructor
  · intro included index inQ
    by_contra isOpen
    -- A word of `p` may have either bit at an index that `p` leaves open.
    have turned : Value.wrap (.bits p.width) (Bits.put p.bits index !q.bits.testBit index) ∈
        p.words := by
      refine (wrap_mem_words_iff rfl).mpr fun other fixed => ?_
      have apart : index ≠ other := fun same => isOpen (same ▸ fixed)
      rw [Bits.testBit_put, if_neg apart]
    have kept := (wrap_mem_words_iff (widthP.symm.trans widthQ)).mp (included turned) index inQ
    rw [Bits.testBit_put, if_pos rfl] at kept
    exact Bool.not_ne_self _ kept
  · intro included word inP
    obtain ⟨width, bits⟩ := mem_words.mp inP
    refine mem_words.mpr ⟨width.trans (widthP.symm.trans widthQ), fun index inQ => ?_⟩
    have inBoth := included inQ
    calc word.bit index = p.bits.testBit index := bits index inBoth
      _ = shared.bit index := (bitsP index inBoth).symm
      _ = q.bits.testBit index := bitsQ index inQ

/-- Of overlapping patterns the one with more fixed bits has fewer words. -/
theorem words_ssubset_iff (common : (p.words ∩ q.words).Nonempty) :
    p.words ⊂ q.words ↔ q.fixed ⊂ p.fixed := by
  have turned : (q.words ∩ p.words).Nonempty := Set.inter_comm _ _ ▸ common
  rw [ssubset_iff_subset_not_subset, ssubset_iff_subset_not_subset, words_subset_iff common,
    words_subset_iff turned]

end MachineDescription.Pattern
