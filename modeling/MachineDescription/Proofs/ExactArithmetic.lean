import MachineDescription.Proofs.ConditionFlags

namespace MachineDescription

namespace Flagged

/-- The outcome of an operation on values of a type: `exact` is the integer result of the unsigned
readings, `signed` that of the signed ones, and `carry` what the carry flag stands for. -/
structure Tells (out : Flagged) (ty : DataType) (exact signed : Int) (carry : Prop) : Prop where
  type : out.result.ty = ty
  pattern : (out.result.pattern : Int) = exact % Bits.limit ty.width
  zero : out.flags.zero = true ↔ out.result.pattern = 0
  negative : out.flags.negative = true ↔ out.result.bit (ty.width - 1) = true
  carry : out.flags.carry = true ↔ carry
  overflow : out.flags.overflow = true ↔
    ¬(-Bits.limit (ty.width - 1) ≤ signed ∧ signed ≤ Bits.limit (ty.width - 1) - 1)

variable {out : Flagged} {ty : DataType} {exact exact' signed signed' : Int} {carry carry' : Prop}

/-- Turning the carry flag turns only what it tells. -/
theorem Tells.turnCarry (told : out.Tells ty exact signed carry) :
    out.turnCarry.Tells ty exact signed ¬carry where
  type := told.type
  pattern := told.pattern
  zero := told.zero
  negative := told.negative
  carry := by
    change (!out.flags.carry) = true ↔ _
    rw [Bool.not_eq_true', Bool.eq_false_iff, ne_eq, told.carry]
  overflow := told.overflow

/-- The pattern knows the integer only up to a multiple of the limit. -/
theorem Tells.congr (told : out.Tells ty exact signed carry)
    (cut : exact % Bits.limit ty.width = exact' % Bits.limit ty.width) (same : signed = signed')
    (turned : carry ↔ carry') : out.Tells ty exact' signed' carry' where
  type := told.type
  pattern := told.pattern.trans cut
  zero := told.zero
  negative := told.negative
  carry := told.carry.trans turned
  overflow := same ▸ told.overflow

end Flagged

namespace Value

variable {v w : Value} {operation : Operation}

theorem signBit_iff_top (positive : 0 < v.width) :
    v.signBit = true ↔ v.bit (v.width - 1) = true := by
  rw [signBit, decide_eq_true positive, Bool.true_and]

theorem Numbers.tells_sum (numbers : v.Numbers w) (carry : Bool) :
    (v.sum w carry).Tells v.ty (v.unsigned + w.unsigned + carry.toNat)
      (v.signed + w.signed + carry.toNat)
      (Bits.limit v.width ≤ v.unsigned + w.unsigned + carry.toNat) where
  type := rfl
  pattern := by
    change ((_ % Bits.limit v.width : Nat) : Int) = _
    rw [Int.natCast_emod, Int.natCast_add, Int.natCast_add]
    rfl
  zero := beq_iff_eq
  negative := @signBit_iff_top (v.sum w carry).result numbers.positive
  carry := by
    change decide (Bits.limit v.width ≤ v.pattern + w.pattern + carry.toNat) = true ↔ _
    rw [decide_eq_true_iff, ← Int.ofNat_le, Int.natCast_add, Int.natCast_add]
    rfl
  overflow := by
    rw [sum_overflow_iff numbers, DataType.Holds, and_iff_right numbers.positive,
      Int.le_sub_one_iff]

/-- The complement turns a sum into the difference, one limit above it. -/
theorem Numbers.unsigned_complement (numbers : v.Numbers w) (borrow : Bool) :
    v.unsigned + w.complement.unsigned + (!borrow).toNat =
      v.unsigned - w.unsigned - borrow.toNat + Bits.limit v.width := by
  obtain ⟨_, right⟩ := numbers.bounds
  have bits := numbers.pattern_complement
  unfold unsigned
  cases borrow with
  | false =>
    change _ + _ + ((1 : Nat) : Int) = _ - _ - ((0 : Nat) : Int) + _
    omega
  | true =>
    change _ + _ + ((0 : Nat) : Int) = _ - _ - ((1 : Nat) : Int) + _
    omega

/-- A difference is a sum with the complement, which reads one limit higher than the difference of
the unsigned readings and exactly as the difference of the signed ones. -/
theorem Numbers.tells_difference (numbers : v.Numbers w) (borrow : Bool) :
    (v.difference w borrow).Tells v.ty (v.unsigned - w.unsigned - borrow.toNat)
      (v.signed - w.signed - borrow.toNat) (v.unsigned < w.unsigned + borrow.toNat) := by
  have exact := numbers.unsigned_complement borrow
  refine (numbers.complement.tells_sum !borrow).turnCarry.congr ?_
    (complement_exact numbers.positive_right v borrow) ?_
  · rw [exact, Int.add_emod_right]
  · rw [exact]
    omega

/-- Where the flag is a carry, the difference is that with the turned flag as the borrow, and the
carry out is turned back. -/
theorem Numbers.tells_carried (numbers : v.Numbers w) (carry : Bool) :
    (v.sum w.complement carry).Tells v.ty (v.unsigned - w.unsigned - (1 - carry.toNat))
      (v.signed - w.signed - (1 - carry.toNat)) (w.unsigned + (1 - carry.toNat) ≤ v.unsigned) := by
  have taken : (((!carry).toNat : Nat) : Int) = 1 - carry.toNat := by cases carry <;> rfl
  have turned : (v.difference w !carry).turnCarry = v.sum w.complement carry := by
    rw [difference, Bool.not_not]
    exact congrArg (Flagged.report _ · _) (Bool.not_not _)
  rw [← turned, ← taken]
  exact (numbers.tells_difference !carry).turnCarry.congr rfl rfl Int.not_lt

theorem unsupported_of_checked {α : Type} (refused : v.ty.isBool = true ∨ v.width = 0)
    (x : Except Error α) :
    ∃ err, (v.requireNumber operation >>= fun _ => v.requireSameWidth operation w >>= fun _ => x) =
      .error err ∧ err.kind = .unsupported := by
  rw [requireNumber, if_pos refused]
  exact ⟨_, rfl, rfl⟩

theorem typeMismatch_of_checked {α : Type} (number : v.ty.isBool = false) (positive : 0 < v.width)
    (differ : v.width ≠ w.width) (x : Except Error α) :
    ∃ err, (v.requireNumber operation >>= fun _ => v.requireSameWidth operation w >>= fun _ => x) =
      .error err ∧ err.kind = .typeMismatch := by
  rw [requireNumber_eq_ok_iff.mpr ⟨number, positive⟩, requireSameWidth, if_neg differ]
  exact ⟨_, rfl, rfl⟩

/-- A sum of numbers of one width is the integer sum: cut to the width, with the carry flag for an
unsigned sum that reaches the limit and the overflow flag for a signed sum out of range. There is
no sum of a truth value or an empty pattern with anything, nor of values of different widths. -/
theorem addWithCarry_exact (v w : Value) (carry : Bool) :
    (v.ty.isBool = false ∧ 0 < v.width ∧ v.width = w.width →
      ∃ out, v.addWithCarry w carry = .ok out ∧
        out.Tells v.ty (v.unsigned + w.unsigned + carry.toNat) (v.signed + w.signed + carry.toNat)
          (Bits.limit v.width ≤ v.unsigned + w.unsigned + carry.toNat)) ∧
    (v.ty.isBool = true ∨ v.width = 0 →
      ∃ err, v.addWithCarry w carry = .error err ∧ err.kind = .unsupported) ∧
    (v.ty.isBool = false ∧ 0 < v.width ∧ v.width ≠ w.width →
      ∃ err, v.addWithCarry w carry = .error err ∧ err.kind = .typeMismatch) := by
  refine ⟨?_, fun refused => unsupported_of_checked refused _, ?_⟩
  · rintro ⟨number, positive, same⟩
    have numbers : v.Numbers w := ⟨number, positive, same⟩
    exact ⟨_, numbers.addWithCarry_eq carry, numbers.tells_sum carry⟩
  · rintro ⟨number, positive, differ⟩
    exact typeMismatch_of_checked number positive differ _

/-- The carry alone takes the greatest signed byte out of range; a bit and a truth value carry out
of the width of one; and the two ways in which there is no sum. -/
theorem addWithCarry_exact_edges :
    (∃ out, (maximum (.sint 8)).addWithCarry (zero (.uint 8)) true = .ok out ∧
      out.Tells (.sint 8) 128 128 (256 ≤ (128 : Int)) ∧ out.flags = ⟨false, false, true, true⟩) ∧
    (∃ out, (wrap (.bits 1) 1).addWithCarry (ofBool true) false = .ok out ∧
      out.Tells (.bits 1) 2 (-2) (2 ≤ (2 : Int)) ∧ out.flags = ⟨true, true, true, false⟩) ∧
    (∃ err, (ofBool true).addWithCarry (ofBool true) false = .error err ∧
      err.kind = .unsupported) ∧
    ∃ err, (zero (.bits 8)).addWithCarry (zero (.bits 4)) false = .error err ∧
      err.kind = .typeMismatch := by
  refine ⟨?_, ?_, (addWithCarry_exact _ _ _).2.1 (Or.inl rfl),
    (addWithCarry_exact _ _ _).2.2 ⟨rfl, by decide, by decide⟩⟩
  · obtain ⟨out, made, told⟩ := (addWithCarry_exact (maximum (.sint 8)) (zero (.uint 8)) true).1
      ⟨rfl, by decide, rfl⟩
    refine ⟨out, made, told, ?_⟩
    cases made
    decide
  · obtain ⟨out, made, told⟩ := (addWithCarry_exact (wrap (.bits 1) 1) (ofBool true) false).1
      ⟨rfl, by decide, rfl⟩
    refine ⟨out, made, told, ?_⟩
    cases made
    decide

/-- A difference of numbers of one width is the integer difference, cut to the width. Where the flag
is a borrow, it is taken off, and it is set when more is taken than there is. Where it is a carry,
one is taken off without it, and it is set when there was enough. Overflow is that the signed
difference is out of range, in both senses. -/
theorem subtractWith_exact (number : v.ty.isBool = false) (positive : 0 < v.width)
    (same : v.width = w.width) (flag : Bool) :
    (∃ out, v.subtractWith w .borrow flag = .ok out ∧
      out.Tells v.ty (v.unsigned - w.unsigned - flag.toNat) (v.signed - w.signed - flag.toNat)
        (v.unsigned < w.unsigned + flag.toNat)) ∧
    ∃ out, v.subtractWith w .carry flag = .ok out ∧
      out.Tells v.ty (v.unsigned - w.unsigned - (1 - flag.toNat))
        (v.signed - w.signed - (1 - flag.toNat)) (w.unsigned + (1 - flag.toNat) ≤ v.unsigned) := by
  have numbers : v.Numbers w := ⟨number, positive, same⟩
  exact ⟨⟨_, numbers.subtractWith_borrow_eq flag, numbers.tells_difference flag⟩,
    _, numbers.subtractWith_carry_eq flag, numbers.tells_carried flag⟩

/-- Zero less the least signed byte. The borrow takes one more, and the difference is in range; the
carry takes nothing more, and it is not. -/
theorem subtractWith_exact_least :
    (∃ out, (zero (.sint 8)).subtractWith (minimum (.sint 8)) .borrow true = .ok out ∧
      out.Tells (.sint 8) (-129) 127 (0 < (129 : Int)) ∧
      out.flags = ⟨false, true, false, false⟩) ∧
    ∃ out, (zero (.sint 8)).subtractWith (minimum (.sint 8)) .carry true = .ok out ∧
      out.Tells (.sint 8) (-128) 128 (128 ≤ (0 : Int)) ∧
      out.flags = ⟨false, false, true, true⟩ := by
  obtain ⟨⟨borrowed, made, told⟩, carried, also, toldToo⟩ :=
    @subtractWith_exact (zero (.sint 8)) (minimum (.sint 8)) rfl (by decide) rfl true
  refine ⟨⟨borrowed, made, told.congr (by decide) (by decide) (by decide), ?_⟩,
    carried, also, toldToo.congr (by decide) (by decide) (by decide), ?_⟩
  · cases made
    decide
  · cases also
    decide

end Value

end MachineDescription
