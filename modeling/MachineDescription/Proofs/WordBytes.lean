import MachineDescription.Pattern.Bytes
import MachineDescription.Proofs.BarePatterns
import MachineDescription.Proofs.PatternBits
import Mathlib.Data.List.TakeDrop
import Mathlib.Data.Nat.Digits.Defs

namespace MachineDescription

namespace Endianness

/-- The bytes of a number without zeros at the high end, least significant first; the number zero is
one byte. -/
def shortestBytes (n : Nat) : List UInt8 :=
  if n = 0 then [0] else (Nat.digits 256 n).map UInt8.ofNat

/-- The low bytes of a number are its shortest bytes, cut or filled with zeros. -/
theorem bytesOfNumber_eq_takeD (count n : Nat) :
    bytesOfNumber count n = (shortestBytes n).takeD count 0 := by
  have digits : ∀ n,
      bytesOfNumber count n = ((Nat.digits 256 n).map UInt8.ofNat).takeD count 0 := by
    induction count with
    | zero => exact fun _ => rfl
    | succ count ih =>
      intro n
      rw [bytesOfNumber, ih, List.takeD_succ]
      rcases Nat.eq_zero_or_pos n with rfl | positive
      · simp
      · rw [Nat.digits_def' (by decide) positive]
        rfl
  unfold shortestBytes
  split
  · rename_i zero
    rw [digits, zero, Nat.digits_zero, List.map_nil]
    cases count with
    | zero => rfl
    | succ count => rfl
  · exact digits n

end Endianness

namespace Pattern

theorem isFull_iff {p : Pattern} :
    p.isFull = true ↔ ∀ index < p.width, p.isFixed index = true := by
  rw [isFull, beq_iff_eq]
  constructor
  · intro full index inside
    rw [isFixed, full, Bits.testBit_ones, decide_eq_true inside]
  · intro all
    apply Nat.eq_of_testBit_eq
    intro index
    rw [Bits.testBit_ones]
    by_cases inside : index < p.width
    · rw [decide_eq_true inside]
      exact all index inside
    · rw [decide_eq_false inside]
      exact Bits.lt_limit_iff.mp p.mask_lt index (Nat.not_lt.mp inside)

end Pattern

namespace Endianness

/-- In each order, a pattern has bytes exactly if it leaves no bit open and its width is a number of
bytes. They are the shortest bytes of its number filled up to the width, and they are read back as
its value. Bytes are read as a word of their length, in reverse for the other order, and a pattern
of that word is written as these very bytes. -/
theorem bytes_roundTrip (order : Endianness) :
    (∀ p : Pattern,
      ((∃ bytes, p.toBytes order = .ok bytes) ↔
        (∀ index < p.width, p.isFixed index = true) ∧ p.width % 8 = 0) ∧
      ∀ bytes, p.toBytes order = .ok bytes →
        bytes.length = p.width / 8 ∧ order.word bytes = p.value ∧
          bytes = order.arrange ((shortestBytes p.bits).takeD (p.width / 8) 0)) ∧
      ∀ bytes : List UInt8,
        (order.word bytes).ty = .bits (8 * bytes.length) ∧
          big.word bytes = little.word bytes.reverse ∧
          ∀ p : Pattern, (∀ index < p.width, p.isFixed index = true) →
            p.width = 8 * bytes.length → p.value = order.word bytes →
              p.toBytes order = .ok bytes := by
  refine ⟨fun p => ⟨?_, fun bytes written => ?_⟩, fun bytes => ⟨rfl, word_big bytes, ?_⟩⟩
  · simp only [Pattern.toBytes_eq_ok_iff, Pattern.isFull_iff, exists_and_left, exists_eq, and_true]
  · obtain ⟨_, aligned, rfl⟩ := Pattern.toBytes_eq_ok_iff.mp written
    refine ⟨by simp, Pattern.word_arrange_bytesOfNumber aligned order, ?_⟩
    rw [bytesOfNumber_eq_takeD]
  · intro p full width value
    have bits : p.bits = (order.word bytes).pattern := congrArg Value.pattern value
    refine Pattern.toBytes_eq_ok_iff.mpr ⟨Pattern.isFull_iff.mpr full, by omega, ?_⟩
    rw [width, Nat.mul_div_cancel_left _ (by decide), bits, arrange_bytesOfNumber_word]

/-- A full pattern of four bytes, with zero bytes at both ends in either order. -/
def zeroEnds : Pattern :=
  ⟨32, Bits.ones 32, 65536, by decide, by decide⟩

/-- A zero byte at either end is written too. -/
theorem bytes_roundTrip_zeroEnds :
    zeroEnds.toBytes little = .ok [0, 0, 1, 0] ∧ zeroEnds.toBytes big = .ok [0, 1, 0, 0] := by
  have full : ∀ index < zeroEnds.width, zeroEnds.isFixed index = true := by decide
  exact ⟨((bytes_roundTrip little).2 [0, 0, 1, 0]).2.2 zeroEnds full rfl (by decide),
    ((bytes_roundTrip big).2 [0, 1, 0, 0]).2.2 zeroEnds full rfl (by decide)⟩

end Endianness

end MachineDescription
