import MachineDescription.Value.Bitwise
import MachineDescription.Proofs.IntegerRange

namespace MachineDescription

namespace Bits

theorem limit_eq_mul {low high : Nat} (fits : low ≤ high) :
    limit high = limit (high - low) * limit low := by
  rw [← limit_add, Nat.sub_add_cancel fits]

theorem limit_dvd_limit {low high : Nat} (fits : low ≤ high) : limit low ∣ limit high := by
  rw [limit_eq_mul fits]
  exact Nat.dvd_mul_left _ _

theorem shiftLeft_eq (n amount : Nat) : n <<< amount = n * limit amount := by
  rw [Nat.shiftLeft_eq, limit, Nat.one_shiftLeft]

theorem shiftRight_eq (n amount : Nat) : n >>> amount = n / limit amount := by
  rw [Nat.shiftRight_eq_div_pow, limit, Nat.one_shiftLeft]

theorem testBit_ones (width index : Nat) : (ones width).testBit index = decide (index < width) := by
  rw [ones, limit, Nat.one_shiftLeft, Nat.testBit_two_pow_sub_one]

theorem shiftRight_ones (width amount : Nat) : ones width >>> amount = ones (width - amount) := by
  refine Nat.eq_of_testBit_eq fun index => ?_
  rw [Nat.testBit_shiftRight, testBit_ones, testBit_ones]
  exact decide_eq_decide.mpr (by omega)

/-- The ones of one width less those of a smaller one stand above it. -/
theorem ones_xor_ones {low high : Nat} (fits : low ≤ high) :
    ones high ^^^ ones low = ones (high - low) <<< low := by
  refine Nat.eq_of_testBit_eq fun index => ?_
  rw [Nat.testBit_xor, Nat.testBit_shiftLeft, testBit_ones, testBit_ones, testBit_ones]
  by_cases below : index < low
  · have inside : index < high := by omega
    simp [below, inside, Nat.not_le.mpr below]
  · have above : low ≤ index := by omega
    have distance : index < high ↔ index - low < high - low := by omega
    simp [below, above, distance]

/-- Ones above a pattern add the distance of the limits. -/
theorem or_ones_above {n low high : Nat} (small : n < limit low) (fits : low ≤ high) :
    n ||| (ones high ^^^ ones low) = n + (limit high - limit low) := by
  rw [limit, Nat.one_shiftLeft] at small
  rw [ones_xor_ones fits, Nat.or_comm, ← Nat.shiftLeft_add_eq_or_of_lt small, Nat.add_comm,
    shiftLeft_eq, ones, Nat.sub_one_mul, ← limit_eq_mul fits]

end Bits

namespace Value

variable {v : Value} {ty : DataType}

/-- A pattern knows an integer up to a multiple of the limit of its width. -/
theorem wrapInt_congr {n m : Int} (same : n % Bits.limit ty.width = m % Bits.limit ty.width) :
    wrapInt ty n = wrapInt ty m :=
  ext rfl (by rw [pattern_wrapInt, pattern_wrapInt, same])

theorem wrapInt_natCast (ty : DataType) (n : Nat) : wrapInt ty n = wrap ty n := by
  refine ext rfl ?_
  rw [pattern_wrapInt, pattern_wrap, ← Int.natCast_emod, Int.toNat_natCast]

theorem natCast_pattern_wrapInt (ty : DataType) (n : Int) :
    ((wrapInt ty n).pattern : Int) = n % Bits.limit ty.width := by
  have positive : (0 : Int) < Bits.limit ty.width := Int.natCast_pos.mpr (Bits.limit_pos _)
  rw [pattern_wrapInt, Int.toNat_of_nonneg (Int.emod_nonneg n (Int.ne_of_gt positive))]

/-- The signed reading is the pattern or one limit below it. -/
theorem reading_emod (v : Value) (isSigned : Bool) :
    v.reading isSigned % Bits.limit v.width = v.pattern % Bits.limit v.width := by
  cases isSigned with
  | false => rfl
  | true =>
    change v.signed % _ = _
    unfold signed
    split
    · exact Int.sub_emod_right _ _
    · rfl

/-- Both readings of a value give its pattern back. -/
theorem wrapInt_reading (v : Value) (isSigned : Bool) : wrapInt v.ty (v.reading isSigned) = v := by
  rw [wrapInt_congr (v.reading_emod isSigned), wrapInt_natCast, wrap_pattern]

theorem reading_eq_zero_iff (v : Value) (isSigned : Bool) :
    v.reading isSigned = 0 ↔ v.pattern = 0 := by
  have small : v.pattern < Bits.limit v.width := v.pattern_lt
  cases isSigned with
  | false => exact Int.natCast_eq_zero
  | true =>
    change v.signed = 0 ↔ _
    rw [signed_eq]
    split
    · rename_i negative
      have half := Bits.limit_pos (v.width - 1)
      omega
    · exact Int.natCast_eq_zero

/-- A value stands for each of its readings. A truth value reads as zero only if it is false. -/
theorem encoding_reading (v : Value) (isSigned : Bool) :
    encoding (v.reading isSigned) v.ty = v := by
  unfold encoding
  split
  · rename_i truth
    simp only [ne_eq, reading_eq_zero_iff]
    obtain ⟨ty, pattern, small⟩ := v
    cases ty with
    | bits | sint | uint => cases truth
    | bool =>
      have bit : pattern = 0 ∨ pattern = 1 := by
        change pattern < 2 at small
        omega
      rcases bit with rfl | rfl <;> rfl
  · exact v.wrapInt_reading isSigned

/-- Cutting the pattern of an integer forgets the width that it had before. -/
theorem wrap_wrapInt {wide : DataType} (fits : ty.width ≤ wide.width) (n : Int) :
    wrap ty (wrapInt wide n).pattern = wrapInt ty n := by
  have divides : (Bits.limit ty.width : Int) ∣ Bits.limit wide.width :=
    Int.natCast_dvd_natCast.mpr (Bits.limit_dvd_limit fits)
  rw [← wrapInt_natCast, natCast_pattern_wrapInt]
  exact wrapInt_congr (Int.emod_emod_of_dvd n divides)

/-- A pattern that is cut to a smaller width is that of the same integer. -/
theorem truncate_wrapInt {wide : DataType} (fits : ty.width ≤ wide.width) (n : Int) :
    (wrapInt wide n).truncate ty = .ok (wrapInt ty n) :=
  (if_neg (Nat.not_lt.mpr fits)).trans (congrArg _ (wrap_wrapInt fits n))

/-- Ones above a pattern whose sign bit is set make up for the limits of two widths: the wider
pattern is that of the same negative integer. -/
theorem wrap_add_limits {n low : Nat} (fits : low ≤ ty.width) :
    wrap ty (n + (Bits.limit ty.width - Bits.limit low)) = wrapInt ty (n - Bits.limit low) := by
  have smaller := Bits.limit_mono fits
  have distance : ((n + (Bits.limit ty.width - Bits.limit low) : Nat) : Int) =
      n - Bits.limit low + Bits.limit ty.width := by omega
  rw [← wrapInt_natCast, distance]
  exact wrapInt_congr (Int.add_emod_right _ _)

/-- Shifting right with the sign bit divides the signed reading and rounds down. -/
theorem shiftRightSigned_eq (v : Value) (amount : Nat) :
    v.shiftRightSigned amount = wrapInt v.ty (v.signed / Bits.limit (min amount v.width)) := by
  have inside : min amount v.width ≤ v.width := Nat.min_le_right _ _
  simp only [shiftRightSigned, signed]
  generalize min amount v.width = n at inside
  have shifted := Bits.shiftRight_eq v.pattern n
  have product := Bits.limit_eq_mul inside
  have small : v.pattern >>> n < Bits.limit (v.width - n) := by
    rw [shifted, Nat.div_lt_iff_lt_mul (Bits.limit_pos n), ← product]
    exact v.pattern_lt
  have nonzero : (Bits.limit n : Int) ≠ 0 :=
    Int.natCast_ne_zero.mpr (Nat.ne_of_gt (Bits.limit_pos n))
  -- a negative reading is the limit of the width below the pattern, and divides as the two apart
  split
  · rw [Bits.shiftRight_ones, Bits.or_ones_above small (Nat.sub_le _ _),
      wrap_add_limits (Nat.sub_le _ _), shifted, product, Int.natCast_mul,
      Int.sub_mul_ediv_right _ _ nonzero, Int.natCast_ediv]
  · rw [Nat.or_zero, ← wrapInt_natCast, shifted, Int.natCast_ediv]

/-- Extending with the sign bit keeps the signed reading. -/
theorem signExtend_eq (fits : v.width ≤ ty.width) :
    v.signExtend ty = .ok (wrapInt ty v.signed) := by
  simp only [signExtend, signed, if_neg (Nat.not_lt.mpr fits)]
  split
  · rw [Bits.or_ones_above v.pattern_lt fits, wrap_add_limits fits]
  · rw [Nat.or_zero, wrapInt_natCast]

end Value

end MachineDescription
