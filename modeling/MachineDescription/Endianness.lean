import MachineDescription.Value.Basic

namespace MachineDescription

/-- The order of the bytes of a word: the least significant one first or last. -/
inductive Endianness where
  | little
  | big
  deriving DecidableEq, Repr

namespace Endianness

/-- The number whose bytes are given, least significant first. -/
def numberOfBytes : List UInt8 → Nat
  | [] => 0
  | byte :: rest => byte.toNat + 256 * numberOfBytes rest

/-- The low bytes of a number, least significant first. -/
def bytesOfNumber : Nat → Nat → List UInt8
  | 0, _ => []
  | count + 1, n => UInt8.ofNat (n % 256) :: bytesOfNumber count (n / 256)

/-- Put bytes that are given least significant first into this order, or back. -/
def arrange (order : Endianness) (bytes : List UInt8) : List UInt8 :=
  match order with
  | little => bytes
  | big => bytes.reverse

def word (order : Endianness) (bytes : List UInt8) : Value :=
  .wrap (.bits (8 * bytes.length)) (numberOfBytes (order.arrange bytes))

theorem limit_bytes_succ (count : Nat) :
    Bits.limit (8 * (count + 1)) = 256 * Bits.limit (8 * count) := by
  rw [Nat.mul_succ, Nat.add_comm, Bits.limit_add]
  rfl

theorem numberOfBytes_lt (bytes : List UInt8) :
    numberOfBytes bytes < Bits.limit (8 * bytes.length) := by
  induction bytes with
  | nil => exact Bits.limit_pos 0
  | cons byte rest ih =>
    have low := byte.toNat_lt
    rw [List.length_cons, limit_bytes_succ, numberOfBytes]
    omega

@[simp]
theorem length_bytesOfNumber (count n : Nat) : (bytesOfNumber count n).length = count := by
  induction count generalizing n with
  | zero => rfl
  | succ count ih => rw [bytesOfNumber, List.length_cons, ih]

theorem numberOfBytes_bytesOfNumber (count n : Nat) :
    numberOfBytes (bytesOfNumber count n) = n % Bits.limit (8 * count) := by
  induction count generalizing n with
  | zero => exact (Nat.mod_one n).symm
  | succ count ih =>
    have low : (UInt8.ofNat (n % 256)).toNat = n % 256 :=
      UInt8.toNat_ofNat_of_lt (Nat.mod_lt n (by decide))
    rw [bytesOfNumber, numberOfBytes, ih, low, limit_bytes_succ, Nat.mod_mul]

theorem bytesOfNumber_numberOfBytes (bytes : List UInt8) :
    bytesOfNumber bytes.length (numberOfBytes bytes) = bytes := by
  induction bytes with
  | nil => rfl
  | cons byte rest ih =>
    have small : byte.toNat < 256 := byte.toNat_lt
    have low : (byte.toNat + 256 * numberOfBytes rest) % 256 = byte.toNat := by omega
    have high : (byte.toNat + 256 * numberOfBytes rest) / 256 = numberOfBytes rest := by omega
    rw [numberOfBytes, List.length_cons, bytesOfNumber, low, high, ih, UInt8.ofNat_toNat]

@[simp]
theorem length_arrange (order : Endianness) (bytes : List UInt8) :
    (order.arrange bytes).length = bytes.length := by
  cases order with
  | little => rfl
  | big => exact List.length_reverse

/-- An order is left the way it was entered. -/
@[simp]
theorem arrange_arrange (order : Endianness) (bytes : List UInt8) :
    order.arrange (order.arrange bytes) = bytes := by
  cases order with
  | little => rfl
  | big => exact List.reverse_reverse bytes

theorem pattern_word (order : Endianness) (bytes : List UInt8) :
    (order.word bytes).pattern = numberOfBytes (order.arrange bytes) := by
  have small := numberOfBytes_lt (order.arrange bytes)
  rw [length_arrange] at small
  exact Nat.mod_eq_of_lt small

/-- The bytes of a word are found again from its pattern and their number. -/
theorem arrange_bytesOfNumber_word (order : Endianness) (bytes : List UInt8) :
    order.arrange (bytesOfNumber bytes.length (order.word bytes).pattern) = bytes := by
  have back := bytesOfNumber_numberOfBytes (order.arrange bytes)
  rw [length_arrange] at back
  rw [pattern_word, back, arrange_arrange]

theorem word_big (bytes : List UInt8) : big.word bytes = little.word bytes.reverse := by
  unfold word
  rw [List.length_reverse]
  rfl

end Endianness

end MachineDescription
