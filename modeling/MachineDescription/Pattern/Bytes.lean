import MachineDescription.Endianness
import MachineDescription.Error.Basic

namespace MachineDescription.Pattern

/-- The bytes of a pattern without open bits, in a byte order. -/
def toBytes (p : Pattern) (order : Endianness) : Except Error (List UInt8) :=
  if p.isFull = false then .error (.of (.pattern (.wildcards p)))
  else if p.width % 8 ≠ 0 then .error (.of (.pattern (.notByteAligned p.width)))
  else .ok (order.arrange (Endianness.bytesOfNumber (p.width / 8) p.bits))

theorem toBytes_eq_ok_iff {p : Pattern} {order : Endianness} {bytes : List UInt8} :
    p.toBytes order = .ok bytes ↔
      p.isFull = true ∧ p.width % 8 = 0 ∧
        bytes = order.arrange (Endianness.bytesOfNumber (p.width / 8) p.bits) := by
  unfold toBytes
  split
  · rename_i partly
    simp [partly]
  · rename_i full
    rw [Bool.not_eq_false] at full
    split
    · rename_i unaligned
      simp [unaligned]
    · rename_i aligned
      rw [Decidable.not_not] at aligned
      simp [full, aligned, eq_comm]

/-- Reading the bytes of a pattern yields its fixed bits. -/
theorem word_arrange_bytesOfNumber {p : Pattern} (aligned : p.width % 8 = 0) (order : Endianness) :
    order.word (order.arrange (Endianness.bytesOfNumber (p.width / 8) p.bits)) = p.value := by
  have width : 8 * (p.width / 8) = p.width := Nat.mul_div_cancel' (Nat.dvd_of_mod_eq_zero aligned)
  apply Value.ext
  · change DataType.bits _ = .bits p.width
    rw [Endianness.length_arrange, Endianness.length_bytesOfNumber, width]
  · rw [Endianness.pattern_word, Endianness.arrange_arrange, Endianness.numberOfBytes_bytesOfNumber,
      width]
    exact Nat.mod_eq_of_lt p.bits_lt

end MachineDescription.Pattern
