import MachineDescription.Proofs.BarePatterns
import MachineDescription.Proofs.ConditionFlags

namespace MachineDescription

namespace Flagged

/-- The outcome for a pair of words from the outcomes for its words. -/
def join (high low : Flagged) : Flagged :=
  ⟨high.result.concat low.result,
    { high.flags with zero := high.flags.zero && low.flags.zero }⟩

end Flagged

namespace Bits

theorem add_div_base {base low : Nat} (small : low < base) (high : Nat) :
    (high * base + low) / base = high := by
  rw [Nat.mul_comm, Nat.mul_add_div (Nat.zero_lt_of_lt small), Nat.div_eq_of_lt small, Nat.add_zero]

/-- What stands below the base does not count in the comparison with a multiple of it. -/
theorem mul_le_add_iff {base low : Nat} (small : low < base) (bound high : Nat) :
    bound * base ≤ high * base + low ↔ bound ≤ high := by
  rw [← Nat.le_div_iff_mul_le (Nat.zero_lt_of_lt small), add_div_base small]

/-- What stands below the base stays when multiples of it are cut. -/
theorem add_mod_mul {base low : Nat} (small : low < base) (bound high : Nat) :
    (high * base + low) % (bound * base) = high % bound * base + low := by
  have remainder : (high * base + low) % base = low := by
    rw [Nat.mul_add_mod', Nat.mod_eq_of_lt small]
  rw [Nat.mul_comm bound, Nat.mod_mul, add_div_base small, remainder, Nat.add_comm, Nat.mul_comm]

end Bits

namespace Value

theorem width_concat (high low : Value) : (high.concat low).width = high.width + low.width := rfl

theorem pattern_concat (high low : Value) :
    (high.concat low).pattern = high.pattern * Bits.limit low.width + low.pattern := by
  have bits : high.pattern <<< low.width ||| low.pattern = (high.concat low).pattern :=
    congrArg Bare.number (Bare.bare_concat high low)
  have small : low.pattern < 2 ^ low.width := Bits.limit_eq_two_pow low.width ▸ low.pattern_lt
  rw [← bits, ← Nat.shiftLeft_add_eq_or_of_lt small, Nat.shiftLeft_eq, Bits.limit_eq_two_pow]

theorem isZero_concat (high low : Value) :
    (high.concat low).isZero = (high.isZero && low.isZero) := by
  have positive := Bits.limit_pos low.width
  rw [Bool.eq_iff_iff, Bool.and_eq_true]
  simp only [isZero, beq_iff_eq, pattern_concat, Nat.add_eq_zero_iff, Nat.mul_eq_zero]
  omega

theorem signBit_concat {high : Value} (positive : 0 < high.width) (low : Value) :
    (high.concat low).signBit = high.signBit := by
  have half : Bits.limit (high.width + low.width - 1) =
      Bits.limit (high.width - 1) * Bits.limit low.width := by
    rw [← Bits.limit_add]
    exact congrArg Bits.limit (by omega)
  rw [Bool.eq_iff_iff, signBit_iff, signBit_iff, width_concat, half, pattern_concat,
    Bits.mul_le_add_iff low.pattern_lt]
  omega

/-- The complement of a pair is the pair of the complements. -/
theorem complement_concat (high low : Value) :
    (high.concat low).complement = high.complement.concat low.complement := by
  obtain ⟨rest, top⟩ : ∃ rest, Bits.limit high.width = high.pattern + rest + 1 :=
    Nat.exists_eq_add_of_lt high.pattern_lt
  have small : low.pattern < Bits.limit low.width := low.pattern_lt
  have whole : Bits.limit (high.width + low.width) =
      high.pattern * Bits.limit low.width + rest * Bits.limit low.width + Bits.limit low.width := by
    rw [Bits.limit_add, top, Nat.add_mul, Nat.add_mul, Nat.one_mul]
  have highRest : Bits.limit high.width - 1 - high.pattern = rest := by omega
  refine ext rfl ?_
  rw [pattern_concat]
  change Bits.limit (high.width + low.width) - 1 - (high.concat low).pattern =
    (Bits.limit high.width - 1 - high.pattern) * Bits.limit low.width +
      (Bits.limit low.width - 1 - low.pattern)
  rw [pattern_concat, whole, highRest]
  omega

/-- The flags of a pair are those of the high words, but zero needs both words. -/
theorem report_concat {high : Value} (positive : 0 < high.width) (low : Value)
    (carry overflow lowCarry lowOverflow : Bool) :
    Flagged.report (high.concat low) carry overflow =
      (Flagged.report high carry overflow).join (.report low lowCarry lowOverflow) := by
  rw [Flagged.report, isZero_concat, signBit_concat positive]
  rfl

section Pairs

variable {high low high' low' : Value}

theorem Numbers.concat (highs : high.Numbers high') (lows : low.Numbers low') :
    (high.concat low).Numbers (high'.concat low') := by
  have positive := highs.positive
  refine ⟨rfl, ?_, ?_⟩
  · rw [width_concat]
    omega
  · rw [width_concat, width_concat, highs.same, lows.same]

/-- The carry of a sum makes up for what the result is cut by. -/
theorem sum_balance (numbers : low.Numbers low') (carry : Bool) :
    low.pattern + low'.pattern + carry.toNat =
      (low.sum low' carry).flags.carry.toNat * Bits.limit low.width +
        (low.sum low' carry).result.pattern := by
  have flag : (low.sum low' carry).flags.carry =
      decide (Bits.limit low.width ≤ low.pattern + low'.pattern + carry.toNat) := rfl
  rw [pattern_sum numbers, flag]
  split
  · rename_i fits
    rw [decide_eq_false (Nat.not_le.mpr fits), Bool.toNat_false, Nat.zero_mul, Nat.zero_add]
  · rename_i exceeds
    rw [decide_eq_true (Nat.not_lt.mp exceeds), Bool.toNat_true, Nat.one_mul]
    omega

/-- The carry of the low words goes to the high ones; what is left of the low words stays below. -/
theorem total_concat (lows : low.Numbers low') (high high' : Value) (carry : Bool) :
    (high.concat low).pattern + (high'.concat low').pattern + carry.toNat =
      (high.pattern + high'.pattern + (low.sum low' carry).flags.carry.toNat) *
        Bits.limit low.width + (low.sum low' carry).result.pattern := by
  have balance := sum_balance lows carry
  rw [pattern_concat, pattern_concat, ← lows.same, Nat.add_mul, Nat.add_mul]
  omega

theorem result_sum_concat (lows : low.Numbers low') (high high' : Value) (carry : Bool) :
    ((high.concat low).sum (high'.concat low') carry).result =
      (high.sum high' (low.sum low' carry).flags.carry).result.concat
        (low.sum low' carry).result := by
  refine ext rfl ?_
  change (_ + _ + _) % Bits.limit (high.width + low.width) = _
  rw [total_concat lows, Bits.limit_add, pattern_concat]
  exact Bits.add_mod_mul (low.sum low' carry).result.pattern_lt _ _

theorem carry_sum_concat (lows : low.Numbers low') (high high' : Value) (carry : Bool) :
    ((high.concat low).sum (high'.concat low') carry).flags.carry =
      (high.sum high' (low.sum low' carry).flags.carry).flags.carry := by
  change decide (Bits.limit (high.width + low.width) ≤ _ + _ + _) =
    decide (Bits.limit high.width ≤ _)
  rw [total_concat lows, Bits.limit_add, decide_eq_decide]
  exact Bits.mul_le_add_iff (low.sum low' carry).result.pattern_lt _ _

/-- A sum of two pairs is the sum of the low words and then the sum of the high words with the carry
of the low ones. -/
theorem sum_concat (highs : high.Numbers high') (lows : low.Numbers low') (carry : Bool) :
    (high.concat low).sum (high'.concat low') carry =
      (high.sum high' (low.sum low' carry).flags.carry).join (low.sum low' carry) := by
  have result := result_sum_concat lows high high' carry
  have overflow : ((high.concat low).sum (high'.concat low') carry).flags.overflow =
      (high.sum high' (low.sum low' carry).flags.carry).flags.overflow := by
    have left := signBit_concat highs.positive low
    have right := signBit_concat highs.positive_right low'
    have out := @signBit_concat (high.sum high' (low.sum low' carry).flags.carry).result
      highs.positive (low.sum low' carry).result
    rw [← result] at out
    rw [sum_overflow, sum_overflow, left, right, out]
  rw [← report_sum, result, carry_sum_concat lows, overflow]
  exact @report_concat (high.sum high' _).result highs.positive _ _ _ _ _

/-- As the complement is taken word by word, differences go the same way. -/
theorem difference_concat (highs : high.Numbers high') (lows : low.Numbers low') (borrow : Bool) :
    (high.concat low).difference (high'.concat low') borrow =
      (high.difference high' (low.difference low' borrow).flags.carry).join
        (low.difference low' borrow) := by
  have turned : (!(low.difference low' borrow).flags.carry) =
      (low.sum low'.complement !borrow).flags.carry := Bool.not_not _
  rw [difference, complement_concat, sum_concat highs.complement lows.complement, ← turned]
  rfl

/-- The sum of two pairs of words comes word by word, the carry going from the low words to the high
ones, and so does the difference in each sense of the flag. -/
theorem concat_arithmetic (highNumber : high.ty.isBool = false) (highPositive : 0 < high.width)
    (highSame : high.width = high'.width) (lowNumber : low.ty.isBool = false)
    (lowPositive : 0 < low.width) (lowSame : low.width = low'.width) (flag : Bool) :
    (∃ below above, low.addWithCarry low' flag = .ok below ∧
      high.addWithCarry high' below.flags.carry = .ok above ∧
      (high.concat low).addWithCarry (high'.concat low') flag = .ok (above.join below)) ∧
    ∀ sense, ∃ below above, low.subtractWith low' sense flag = .ok below ∧
      high.subtractWith high' sense below.flags.carry = .ok above ∧
      (high.concat low).subtractWith (high'.concat low') sense flag =
        .ok (above.join below) := by
  have highs : high.Numbers high' := ⟨highNumber, highPositive, highSame⟩
  have lows : low.Numbers low' := ⟨lowNumber, lowPositive, lowSame⟩
  refine ⟨⟨_, _, lows.addWithCarry_eq flag, highs.addWithCarry_eq _, ?_⟩, fun sense => ?_⟩
  · rw [(highs.concat lows).addWithCarry_eq, sum_concat highs lows]
  · cases sense with
    | borrow =>
      refine ⟨_, _, lows.subtractWith_borrow_eq flag, highs.subtractWith_borrow_eq _, ?_⟩
      rw [(highs.concat lows).subtractWith_borrow_eq, difference_concat highs lows]
    | carry =>
      refine ⟨_, _, lows.subtractWith_carry_eq flag, highs.subtractWith_carry_eq _, ?_⟩
      rw [(highs.concat lows).subtractWith_carry_eq, complement_concat,
        sum_concat highs.complement lows.complement]

/-- A carry that runs through the low byte, and a borrow that does. The words differ in width and
in type. -/
theorem concat_arithmetic_ripple :
    (∃ below above, (wrap (.uint 8) 255).addWithCarry (wrap (.sint 8) 0) true = .ok below ∧
      (wrap (.sint 4) 7).addWithCarry (wrap (.bits 4) 0) below.flags.carry = .ok above ∧
      (wrap (.bits 12) 0x7ff).addWithCarry (wrap (.bits 12) 0) true = .ok (above.join below) ∧
      below.flags.carry = true ∧ (above.join below).result = wrap (.bits 12) 0x800 ∧
      (above.join below).flags = ⟨false, false, true, true⟩) ∧
    ∃ below above, (wrap (.uint 8) 0).subtractWith (wrap (.sint 8) 1) .borrow false = .ok below ∧
      (wrap (.sint 4) 8).subtractWith (wrap (.bits 4) 0) .borrow below.flags.carry = .ok above ∧
      (wrap (.bits 12) 0x800).subtractWith (wrap (.bits 12) 1) .borrow false =
        .ok (above.join below) ∧
      (above.join below).flags = ⟨false, false, true, false⟩ := by
  refine ⟨?_, ?_⟩
  · obtain ⟨below, above, low, high, wide⟩ :=
      (@concat_arithmetic (wrap (.sint 4) 7) (wrap (.uint 8) 255) (wrap (.bits 4) 0)
        (wrap (.sint 8) 0) rfl (by decide) rfl rfl (by decide) rfl true).1
    refine ⟨below, above, low, high, wide, ?_⟩
    cases low
    cases high
    decide
  · obtain ⟨below, above, low, high, wide⟩ :=
      (@concat_arithmetic (wrap (.sint 4) 8) (wrap (.uint 8) 0) (wrap (.bits 4) 0)
        (wrap (.sint 8) 1) rfl (by decide) rfl rfl (by decide) rfl false).2 .borrow
    refine ⟨below, above, low, high, wide, ?_⟩
    cases low
    cases high
    decide

end Pairs

end Value

end MachineDescription
