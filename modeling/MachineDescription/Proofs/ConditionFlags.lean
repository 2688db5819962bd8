import MachineDescription.Value.Bitwise
import MachineDescription.Proofs.EvaluationErrors

namespace MachineDescription

namespace Flagged

/-- A result with its flags; two of them are read off the result itself. -/
def report (result : Value) (carry overflow : Bool) : Flagged :=
  ⟨result, { zero := result.isZero, carry, overflow, negative := result.signBit }⟩

def turnCarry (out : Flagged) : Flagged :=
  { out with flags := { out.flags with carry := !out.flags.carry } }

end Flagged

namespace Value

variable {v w : Value}

/-- Operands of a sum or a difference: the left one is a number, and they have one width. -/
structure Numbers (v w : Value) : Prop where
  number : v.ty.isBool = false
  positive : 0 < v.width
  same : v.width = w.width

/-- The checks in front of an operation pass, and what is left is the operation. -/
theorem Numbers.checked {α : Type} (numbers : v.Numbers w) (operation : Operation)
    (x : Except Error α) :
    (v.requireNumber operation >>= fun _ => v.requireSameWidth operation w >>= fun _ => x) = x := by
  rw [requireNumber_eq_ok_iff.mpr ⟨numbers.number, numbers.positive⟩,
    requireSameWidth_eq_ok_iff.mpr numbers.same]
  rfl

/-- The sum with its flags, of operands that pass the checks. -/
def sum (v w : Value) (carry : Bool) : Flagged :=
  let total := v.pattern + w.pattern + carry.toNat
  .report (wrap v.ty total) (decide (Bits.limit v.width ≤ total))
    (v.signBit == w.signBit && v.signBit != (wrap v.ty total).signBit)

/-- The difference with its flags, where carry stands for a borrow. -/
def difference (v w : Value) (borrow : Bool) : Flagged :=
  (v.sum w.complement !borrow).turnCarry

theorem Numbers.complement (numbers : v.Numbers w) : v.Numbers w.complement :=
  ⟨numbers.number, numbers.positive, numbers.same⟩

theorem Numbers.negate (numbers : v.Numbers w) : v.Numbers w.negate :=
  ⟨numbers.number, numbers.positive, numbers.same⟩

theorem Numbers.positive_right (numbers : v.Numbers w) : 0 < w.width :=
  numbers.same ▸ numbers.positive

theorem Numbers.bounds (numbers : v.Numbers w) :
    v.pattern < Bits.limit v.width ∧ w.pattern < Bits.limit v.width :=
  ⟨v.pattern_lt, numbers.same ▸ w.pattern_lt⟩

theorem Numbers.pattern_complement (numbers : v.Numbers w) :
    w.complement.pattern = Bits.limit v.width - 1 - w.pattern := by
  rw [numbers.same]
  rfl

theorem Numbers.addWithCarry_eq (numbers : v.Numbers w) (carry : Bool) :
    v.addWithCarry w carry = .ok (v.sum w carry) :=
  numbers.checked .addition _

/-- A difference with a borrow is a sum with the complement, and its carry flag is the borrow. -/
theorem Numbers.subtractWith_borrow_eq (numbers : v.Numbers w) (borrow : Bool) :
    v.subtractWith w .borrow borrow = .ok (v.difference w borrow) := by
  refine (numbers.checked .subtraction _).trans ?_
  rw [numbers.complement.addWithCarry_eq]
  rfl

theorem Numbers.subtractWith_carry_eq (numbers : v.Numbers w) (carry : Bool) :
    v.subtractWith w .carry carry = .ok (v.sum w.complement carry) :=
  (numbers.checked .subtraction _).trans (numbers.complement.addWithCarry_eq carry)

theorem signBit_iff_signed_neg : v.signBit = true ↔ v.signed < 0 := by
  have small : v.pattern < Bits.limit v.width := v.pattern_lt
  rw [signBit_iff, signed_eq]
  split <;> omega

theorem sum_overflow (carry : Bool) :
    (v.sum w carry).flags.overflow =
      (v.signBit == w.signBit && v.signBit != (v.sum w carry).result.signBit) := rfl

theorem report_sum (v w : Value) (carry : Bool) :
    Flagged.report (v.sum w carry).result (v.sum w carry).flags.carry
      (v.sum w carry).flags.overflow = v.sum w carry := rfl

theorem width_sum (carry : Bool) : (v.sum w carry).result.width = v.width := rfl

/-- A sum of two patterns and a carry is at most one limit too high. -/
theorem pattern_sum (numbers : v.Numbers w) (carry : Bool) :
    (v.sum w carry).result.pattern =
      if v.pattern + w.pattern + carry.toNat < Bits.limit v.width then
        v.pattern + w.pattern + carry.toNat
      else v.pattern + w.pattern + carry.toNat - Bits.limit v.width := by
  obtain ⟨left, right⟩ := numbers.bounds
  have unit := carry.toNat_lt
  change _ % Bits.limit v.width = _
  split
  · rename_i small
    exact Nat.mod_eq_of_lt small
  · rename_i large
    rw [Nat.mod_eq_sub_mod (Nat.not_lt.mp large)]
    exact Nat.mod_eq_of_lt (by omega)

/-- The overflow flag as the adder sets it: operands of one sign, and a result of the other. -/
theorem sum_overflow_iff_signs (carry : Bool) :
    (v.sum w carry).flags.overflow = true ↔
      (v.signed < 0 ↔ w.signed < 0) ∧ ¬(v.signed < 0 ↔ (v.sum w carry).result.signed < 0) := by
  rw [sum_overflow, ← signBit_iff_signed_neg, ← signBit_iff_signed_neg, ← signBit_iff_signed_neg]
  cases v.signBit <;> cases w.signBit <;> cases (v.sum w carry).result.signBit <;> decide

theorem signed_range (positive : 0 < v.width) :
    -Bits.limit (v.width - 1) ≤ v.signed ∧ v.signed < Bits.limit (v.width - 1) :=
  (holds_signed positive).2

theorem sum_range (numbers : v.Numbers w) (carry : Bool) :
    -Bits.limit (v.width - 1) ≤ (v.sum w carry).result.signed ∧
      (v.sum w carry).result.signed < Bits.limit (v.width - 1) :=
  @signed_range (v.sum w carry).result numbers.positive

theorem sum_negative_iff (carry : Bool) :
    (v.sum w carry).flags.negative = true ↔ (v.sum w carry).result.signed < 0 :=
  @signBit_iff_signed_neg (v.sum w carry).result

theorem signed_eq_or (v : Value) :
    v.signed = v.pattern ∨ v.signed = v.pattern - Bits.limit v.width := by
  rw [signed]
  split
  · exact Or.inr rfl
  · exact Or.inl rfl

/-- The signed result is the exact sum, or it is one limit below or above. -/
theorem sum_offset (numbers : v.Numbers w) (carry : Bool) :
    (v.sum w carry).result.signed = v.signed + w.signed + carry.toNat ∨
      (v.sum w carry).result.signed + Bits.limit v.width = v.signed + w.signed + carry.toNat ∨
      (v.sum w carry).result.signed = v.signed + w.signed + carry.toNat + Bits.limit v.width := by
  have double := Bits.limit_eq_double numbers.positive
  have unit := carry.toNat_lt
  have left := signed_range numbers.positive
  have right := signed_range numbers.positive_right
  have out := sum_range numbers carry
  have bits := pattern_sum numbers carry
  have leftBits := v.signed_eq_or
  have rightBits := w.signed_eq_or
  have outBits := (v.sum w carry).result.signed_eq_or
  rw [← numbers.same] at right rightBits
  rw [width_sum] at outBits
  split at bits <;> omega

/-- An offset sets the overflow flag, and the negative flag tells its direction. -/
theorem sum_cases (numbers : v.Numbers w) (carry : Bool) :
    (v.sum w carry).flags.overflow = false ∧
        (v.sum w carry).result.signed = v.signed + w.signed + carry.toNat ∨
      (v.sum w carry).flags.overflow = true ∧ (v.sum w carry).flags.negative = true ∧
        (v.sum w carry).result.signed + Bits.limit v.width = v.signed + w.signed + carry.toNat ∨
      (v.sum w carry).flags.overflow = true ∧ (v.sum w carry).flags.negative = false ∧
        (v.sum w carry).result.signed = v.signed + w.signed + carry.toNat + Bits.limit v.width := by
  have double := Bits.limit_eq_double numbers.positive
  have unit := carry.toNat_lt
  have left := signed_range numbers.positive
  have right := signed_range numbers.positive_right
  rw [← numbers.same] at right
  have out := sum_range numbers carry
  -- both flags are settled by the signs of the operands and of the result
  have overflow := @sum_overflow_iff_signs v w carry
  have negative := @sum_negative_iff v w carry
  rcases sum_offset numbers carry with exact | above | below
  · refine Or.inl ⟨?_, exact⟩
    rw [Bool.eq_false_iff, ne_eq, overflow]
    omega
  · refine Or.inr (Or.inl ⟨?_, ?_, above⟩)
    · rw [overflow]
      omega
    · rw [negative]
      omega
  · refine Or.inr (Or.inr ⟨?_, ?_, below⟩)
    · rw [overflow]
      omega
    · rw [Bool.eq_false_iff, ne_eq, negative]
      omega

/-- Overflow is that the exact sum does not fit, which the adder sees from three signs. -/
theorem sum_overflow_iff (numbers : v.Numbers w) (carry : Bool) :
    (v.sum w carry).flags.overflow = true ↔
      ¬(DataType.sint v.width).Holds (v.signed + w.signed + carry.toNat) := by
  have double := Bits.limit_eq_double numbers.positive
  have out := sum_range numbers carry
  have positive := numbers.positive
  unfold DataType.Holds
  rcases sum_cases numbers carry with ⟨flag, exact⟩ | ⟨flag, _, above⟩ | ⟨flag, _, below⟩
  · rw [flag]
    exact iff_of_false Bool.false_ne_true (fun fails => fails (by omega))
  · exact iff_of_true flag (by omega)
  · exact iff_of_true flag (by omega)

/-- The negative flag is the sign of the exact sum, unless there is an overflow. -/
theorem sum_sign (numbers : v.Numbers w) (carry : Bool) :
    ((v.sum w carry).flags.negative != (v.sum w carry).flags.overflow) =
      decide (v.signed + w.signed + carry.toNat < 0) := by
  have double := Bits.limit_eq_double numbers.positive
  have out := sum_range numbers carry
  have negative := @sum_negative_iff v w carry
  rcases sum_cases numbers carry with ⟨flag, exact⟩ | ⟨flag, top, above⟩ | ⟨flag, top, below⟩
  · rw [flag, Bool.bne_false, Bool.eq_iff_iff, negative, decide_eq_true_iff, exact]
  · have below := negative.mp top
    rw [flag, top]
    exact (decide_eq_false (by omega)).symm
  · rw [flag, top]
    exact (decide_eq_true (by omega)).symm

theorem signed_complement (positive : 0 < w.width) : w.complement.signed = -1 - w.signed := by
  have double := Bits.limit_eq_double positive
  have small : w.pattern < Bits.limit w.width := w.pattern_lt
  have bits : w.complement.pattern = Bits.limit w.width - 1 - w.pattern := rfl
  have width : w.complement.width = w.width := rfl
  rw [signed_eq, signed_eq, bits, width]
  split <;> split <;> omega

/-- The sum with the complement is the exact difference, with the carry as the missing borrow. -/
theorem complement_exact (positive : 0 < w.width) (v : Value) (borrow : Bool) :
    v.signed + w.complement.signed + (!borrow).toNat = v.signed - w.signed - borrow.toNat := by
  rw [signed_complement positive]
  cases borrow with
  | false =>
    change _ + ((1 : Nat) : Int) = _ - ((0 : Nat) : Int)
    omega
  | true =>
    change _ + ((0 : Nat) : Int) = _ - ((1 : Nat) : Int)
    omega

theorem difference_overflow_iff (numbers : v.Numbers w) (borrow : Bool) :
    (v.difference w borrow).flags.overflow = true ↔
      ¬(DataType.sint v.width).Holds (v.signed - w.signed - borrow.toNat) := by
  rw [← complement_exact numbers.positive_right]
  exact sum_overflow_iff numbers.complement !borrow

theorem difference_sign (numbers : v.Numbers w) (borrow : Bool) :
    ((v.difference w borrow).flags.negative != (v.difference w borrow).flags.overflow) =
      decide (v.signed - w.signed - borrow.toNat < 0) := by
  rw [← complement_exact numbers.positive_right]
  exact sum_sign numbers.complement !borrow

/-- The carry flag of a difference is the borrow of the unsigned readings. -/
theorem difference_carry (numbers : v.Numbers w) (borrow : Bool) :
    (v.difference w borrow).flags.carry = decide (v.pattern < w.pattern + borrow.toNat) := by
  obtain ⟨_, right⟩ := numbers.bounds
  have bits := numbers.pattern_complement
  change (!decide (Bits.limit v.width ≤ v.pattern + w.complement.pattern + (!borrow).toNat)) = _
  rw [bits, ← decide_not, decide_eq_decide]
  cases borrow with
  | false =>
    change ¬_ ≤ _ + 1 ↔ _ < _ + 0
    omega
  | true =>
    change ¬_ ≤ _ + 0 ↔ _ < _ + 1
    omega

/-- Nothing is left exactly when the patterns are the same. -/
theorem difference_zero (numbers : v.Numbers w) :
    (v.difference w false).flags.zero = decide (v.pattern = w.pattern) := by
  obtain ⟨left, right⟩ := numbers.bounds
  have bits := numbers.pattern_complement
  have result := pattern_sum numbers.complement true
  change decide ((v.sum w.complement true).result.pattern = 0) = _
  rw [decide_eq_decide, result, bits, Bool.toNat_true]
  split <;> omega

/-- The result is the exact difference, cut to the width. -/
theorem difference_result (numbers : v.Numbers w) :
    (v.difference w false).result = wrapInt v.ty (v.signed - w.signed) := by
  obtain ⟨left, right⟩ := numbers.bounds
  have double := Bits.limit_eq_double numbers.positive
  have leftRange := signed_range numbers.positive
  have rightRange := signed_range numbers.positive_right
  have leftBits := v.signed_eq_or
  have rightBits := w.signed_eq_or
  rw [← numbers.same] at rightRange rightBits
  have low : -(Bits.limit v.width : Int) ≤ v.signed - w.signed := by omega
  have high : v.signed - w.signed < Bits.limit v.width := by omega
  have exact : ((wrapInt v.ty (v.signed - w.signed)).pattern : Int) =
      if v.signed - w.signed < 0 then v.signed - w.signed + Bits.limit v.width
      else v.signed - w.signed :=
    pattern_wrapInt_eq low high
  have bits := pattern_sum numbers.complement true
  rw [numbers.pattern_complement, Bool.toNat_true] at bits
  refine ext rfl ?_
  change (v.sum w.complement true).result.pattern = _
  split at bits <;> split at exact <;> omega

theorem pattern_negate (w : Value) :
    w.negate.pattern = if w.pattern = 0 then 0 else Bits.limit w.width - w.pattern := by
  have small : w.pattern < Bits.limit w.width := w.pattern_lt
  have bits : w.complement.pattern + 1 = Bits.limit w.width - w.pattern := by
    change Bits.limit w.width - 1 - w.pattern + 1 = _
    omega
  change (w.complement.pattern + 1) % Bits.limit w.width = _
  rw [bits]
  split
  · rename_i zero
    rw [zero, Nat.sub_zero, Nat.mod_self]
  · exact Nat.mod_eq_of_lt (by omega)

/-- Only the least signed integer is kept by negation. -/
theorem signed_negate (positive : 0 < w.width) :
    w.negate.signed = if w.pattern = Bits.limit (w.width - 1) then w.signed else -w.signed := by
  have double := Bits.limit_eq_double positive
  have nonzero := Bits.limit_pos (w.width - 1)
  have small : w.pattern < Bits.limit w.width := w.pattern_lt
  have width : w.negate.width = w.width := rfl
  rw [signed_eq, signed_eq, pattern_negate, width]
  split <;> split <;> split <;> split <;> omega

/-- Adding the negated operand and adding the complement and one come to the same. -/
theorem result_sum_negate (numbers : v.Numbers w) :
    (v.sum w.negate false).result = (v.sum w.complement true).result := by
  obtain ⟨_, right⟩ := numbers.bounds
  have bits := numbers.pattern_complement
  refine ext rfl ?_
  change (v.pattern + w.negate.pattern + 0) % Bits.limit v.width =
    (v.pattern + w.complement.pattern + 1) % Bits.limit v.width
  rw [bits, pattern_negate, ← numbers.same]
  split
  · rename_i zero
    have full : v.pattern + (Bits.limit v.width - 1 - w.pattern) + 1 =
        v.pattern + 0 + 0 + Bits.limit v.width := by omega
    rw [full, Nat.add_mod_right]
  · exact congrArg (· % _) (by omega)

/-- The overflow flag, turned for the operand that negation keeps, tells of the difference. -/
theorem sum_negate_overflow (numbers : v.Numbers w) :
    ((v.sum w.negate false).flags.overflow != (w.pattern == Bits.limit (w.width - 1))) =
      (v.difference w false).flags.overflow := by
  have double := Bits.limit_eq_double numbers.positive
  have left := signed_range numbers.positive
  have wide := numbers.positive
  have positive := numbers.positive_right
  have sum := sum_overflow_iff numbers.negate false
  have direct := difference_overflow_iff numbers false
  rw [signed_negate positive] at sum
  rw [Bool.eq_iff_iff, direct]
  by_cases least : w.pattern = Bits.limit (w.width - 1)
  · have signed : w.signed = -Bits.limit (v.width - 1) := by
      rw [signed_eq, least, if_pos ⟨positive, Nat.le_refl _⟩, ← numbers.same]
      omega
    -- the sum is with the operand itself, at the other end of the range from the difference
    rw [if_pos least, signed] at sum
    rw [beq_iff_eq.mpr least, signed, Bool.bne_true, Bool.not_eq_true', Bool.eq_false_iff, ne_eq,
      sum]
    unfold DataType.Holds
    simp only [Bool.toNat_false]
    omega
  · rw [if_neg least] at sum
    rw [beq_eq_false_iff_ne.mpr least, Bool.bne_false, sum]
    rfl

/-- When nothing is subtracted, the sum with the negated operand has no carry, and this looks like a
borrow. -/
theorem sum_negate_carry (numbers : v.Numbers w) :
    (!(v.sum w.negate false).flags.carry) = decide (v.pattern < w.pattern ∨ w.pattern = 0) := by
  obtain ⟨left, right⟩ := numbers.bounds
  change (!decide (Bits.limit v.width ≤ v.pattern + w.negate.pattern + 0)) = _
  rw [pattern_negate, ← numbers.same, ← decide_not, decide_eq_decide]
  split <;> omega

/-- Subtraction differs from the difference with a borrow in the carry flag only, and there only if
nothing is subtracted. -/
theorem Numbers.subtract_eq (numbers : v.Numbers w) :
    v.subtract w = .ok (.report (v.difference w false).result
      (decide (v.pattern < w.pattern ∨ w.pattern = 0)) (v.difference w false).flags.overflow) := by
  have least : (minimum (.sint w.width)).pattern = Bits.limit (w.width - 1) :=
    (pattern_minimum (.sint w.width)).trans (if_pos ⟨rfl, numbers.positive_right⟩)
  have result : (v.difference w false).result = (v.sum w.negate false).result :=
    (result_sum_negate numbers).symm
  refine (numbers.checked .subtraction _).trans ?_
  rw [add, numbers.negate.addWithCarry_eq, least, result, ← sum_negate_overflow numbers,
    ← sum_negate_carry numbers]
  rfl

/-- Subtraction by the negated operand and subtraction with a borrow that is not set agree in the
result and in the zero, overflow and negative flags, also for the operand that negation keeps. The
result is the exact difference, cut to the width, and overflow is that it does not fit. The carry
flags agree unless nothing is subtracted: then the first subtraction sets the flag and the second
one does not. -/
theorem subtract_agrees_with_borrow (number : v.ty.isBool = false) (positive : 0 < v.width)
    (same : v.width = w.width) :
    ∃ out borrowed, v.subtract w = .ok out ∧ v.subtractWith w .borrow false = .ok borrowed ∧
      out.result = borrowed.result ∧ out.flags.zero = borrowed.flags.zero ∧
      out.flags.overflow = borrowed.flags.overflow ∧
      out.flags.negative = borrowed.flags.negative ∧
      out.result = wrapInt v.ty (v.signed - w.signed) ∧
      (out.flags.overflow = true ↔
        ¬(-Bits.limit (v.width - 1) ≤ v.signed - w.signed ∧
          v.signed - w.signed < Bits.limit (v.width - 1))) ∧
      (out.flags.carry = borrowed.flags.carry ↔ w.pattern ≠ 0) ∧
      (w.pattern = 0 → out.flags.carry = true ∧ borrowed.flags.carry = false) := by
  have numbers : v.Numbers w := ⟨number, positive, same⟩
  have overflow := difference_overflow_iff numbers false
  have borrow : (v.difference w false).flags.carry = decide (v.pattern < w.pattern) :=
    difference_carry numbers false
  rw [Bool.toNat_false, Int.ofNat_zero, Int.sub_zero] at overflow
  refine ⟨_, _, numbers.subtract_eq, numbers.subtractWith_borrow_eq false, rfl, rfl, rfl, rfl,
    difference_result numbers, overflow.trans (not_congr ?_), ?_,
    fun zero => ⟨decide_eq_true (Or.inr zero), ?_⟩⟩
  · exact and_iff_right positive
  · change decide (v.pattern < w.pattern ∨ w.pattern = 0) = _ ↔ _
    rw [borrow, decide_eq_decide]
    omega
  · rw [borrow]
    exact decide_eq_false (by omega)

/-- The operand that negation keeps, at the width of eight and as a truth value at the width of one,
where it is also minus one; and zero. -/
theorem subtract_agrees_with_borrow_least :
    (∃ out borrowed, (zero (.sint 8)).subtract (minimum (.sint 8)) = .ok out ∧
      (zero (.sint 8)).subtractWith (minimum (.sint 8)) .borrow false = .ok borrowed ∧
      out.result = borrowed.result ∧ out.flags = ⟨false, true, true, true⟩ ∧
      out.flags = borrowed.flags) ∧
    (∃ out borrowed, (zero (.uint 1)).subtract (ofBool true) = .ok out ∧
      (zero (.uint 1)).subtractWith (ofBool true) .borrow false = .ok borrowed ∧
      out.flags.overflow = true ∧ out.flags.carry = borrowed.flags.carry) ∧
    ∃ out borrowed, (minimum (.sint 8)).subtract (zero (.bits 8)) = .ok out ∧
      (minimum (.sint 8)).subtractWith (zero (.bits 8)) .borrow false = .ok borrowed ∧
      out.flags.carry = true ∧ borrowed.flags.carry = false := by
  refine ⟨?_, ?_, ?_⟩
  · obtain ⟨out, borrowed, made, also, result, _⟩ :=
      @subtract_agrees_with_borrow (zero (.sint 8)) (minimum (.sint 8)) rfl (by decide) rfl
    refine ⟨out, borrowed, made, also, result, ?_⟩
    cases made
    cases also
    decide
  · obtain ⟨out, borrowed, made, also, _, _, _, _, _, overflow, carry, _⟩ :=
      @subtract_agrees_with_borrow (zero (.uint 1)) (ofBool true) rfl (by decide) rfl
    exact ⟨out, borrowed, made, also, overflow.mpr (by decide), carry.mpr (by decide)⟩
  · obtain ⟨out, borrowed, made, also, _, _, _, _, _, _, _, carry⟩ :=
      @subtract_agrees_with_borrow (minimum (.sint 8)) (zero (.bits 8)) rfl (by decide) rfl
    exact ⟨out, borrowed, made, also, carry rfl⟩

theorem signed_eq_iff (same : v.width = w.width) : v.signed = w.signed ↔ v.pattern = w.pattern := by
  have left : v.pattern < Bits.limit v.width := v.pattern_lt
  have right : w.pattern < Bits.limit v.width := same ▸ w.pattern_lt
  rw [signed_eq, signed_eq, ← same]
  split <;> split <;> omega

/-- Negative and overflow flag together are the sign of the exact difference. -/
theorem signed_lt_eq (numbers : v.Numbers w) :
    decide (v.signed < w.signed) =
      ((v.difference w false).flags.negative != (v.difference w false).flags.overflow) := by
  rw [difference_sign numbers, Bool.toNat_false, decide_eq_decide]
  omega

theorem signed_le_eq (numbers : v.Numbers w) :
    decide (v.signed ≤ w.signed) = ((v.difference w false).flags.zero ||
      ((v.difference w false).flags.negative != (v.difference w false).flags.overflow)) := by
  have equal := signed_eq_iff numbers.same
  rw [← signed_lt_eq numbers, difference_zero numbers, ← Bool.decide_or, decide_eq_decide]
  omega

theorem unsigned_lt_eq (numbers : v.Numbers w) :
    decide (v.unsigned < w.unsigned) = (v.difference w false).flags.carry := by
  rw [difference_carry numbers, Bool.toNat_false, decide_eq_decide]
  exact Int.ofNat_lt

theorem unsigned_le_eq (numbers : v.Numbers w) :
    decide (v.unsigned ≤ w.unsigned) =
      ((v.difference w false).flags.carry || (v.difference w false).flags.zero) := by
  rw [← unsigned_lt_eq numbers, difference_zero numbers, ← Bool.decide_or, decide_eq_decide]
  unfold unsigned
  omega

/-- Operands of one width can be compared. -/
theorem compared_eq (same : v.width = w.width) {b c : Bool} (equal : b = c) :
    (v.requireSameWidth .comparison w >>= fun _ => pure (ofBool b)) = .ok (ofBool c) := by
  rw [requireSameWidth_eq_ok_iff.mpr same, equal]
  rfl

/-- The comparisons are the branch conditions that the flags of a difference give: signed order is
that the negative flag is not the overflow flag, unsigned order is the borrow, and equality is the
zero flag. The two other comparisons are the negations. -/
theorem comparisons_from_flags (number : v.ty.isBool = false) (positive : 0 < v.width)
    (same : v.width = w.width) :
    ∃ out borrowed, v.subtract w = .ok out ∧ v.subtractWith w .borrow false = .ok borrowed ∧
      v.lt w true = .ok (ofBool (out.flags.negative != out.flags.overflow)) ∧
      v.le w true =
        .ok (ofBool (out.flags.zero || (out.flags.negative != out.flags.overflow))) ∧
      v.lt w false = .ok (ofBool borrowed.flags.carry) ∧
      v.le w false = .ok (ofBool (borrowed.flags.carry || borrowed.flags.zero)) ∧
      ∀ signed, ∃ below upTo, v.lt w signed = .ok (ofBool below) ∧
        v.le w signed = .ok (ofBool upTo) ∧ v.gt w signed = .ok (ofBool !upTo) ∧
        v.ge w signed = .ok (ofBool !below) := by
  have numbers : v.Numbers w := ⟨number, positive, same⟩
  refine ⟨_, _, numbers.subtract_eq, numbers.subtractWith_borrow_eq false,
    compared_eq same (signed_lt_eq numbers), compared_eq same (signed_le_eq numbers),
    compared_eq same (unsigned_lt_eq numbers), compared_eq same (unsigned_le_eq numbers),
    fun signed => ⟨_, _, compared_eq same rfl, compared_eq same rfl, ?_, ?_⟩⟩
  · refine compared_eq same ?_
    rw [← decide_not, decide_eq_decide]
    omega
  · refine compared_eq same ?_
    rw [← decide_not, decide_eq_decide]
    omega

/-- The difference of the least and the greatest signed byte overflows, and the order still comes
out of the flags. -/
theorem comparisons_from_flags_extremes :
    ∃ out borrowed, (minimum (.sint 8)).subtract (maximum (.sint 8)) = .ok out ∧
      (minimum (.sint 8)).subtractWith (maximum (.sint 8)) .borrow false = .ok borrowed ∧
      out.flags.overflow = true ∧ out.flags.negative = false ∧
      (minimum (.sint 8)).lt (maximum (.sint 8)) true = .ok (ofBool true) ∧
      (minimum (.sint 8)).lt (maximum (.sint 8)) false = .ok (ofBool borrowed.flags.carry) ∧
      borrowed.flags.carry = false := by
  obtain ⟨out, borrowed, made, also, less, _, below, _⟩ :=
    @comparisons_from_flags (minimum (.sint 8)) (maximum (.sint 8)) rfl (by decide) rfl
  refine ⟨out, borrowed, made, also, ?_⟩
  cases made
  cases also
  exact ⟨rfl, rfl, less, below, rfl⟩

end Value

end MachineDescription
