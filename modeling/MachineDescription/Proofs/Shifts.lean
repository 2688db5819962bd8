import MachineDescription.Expr.Eval
import MachineDescription.Proofs.FieldBits
import MachineDescription.Proofs.TwosComplement

namespace MachineDescription

namespace Value

variable {v : Value}

/-- A left shift by the width or more leaves only bits beyond the width. -/
theorem pattern_shiftLeft (v : Value) (amount : Nat) :
    (v.shiftLeft amount).pattern = v.pattern * Bits.limit amount % Bits.limit v.width := by
  unfold shiftLeft
  split
  · rename_i beyond
    have divides : Bits.limit v.width ∣ v.pattern * Bits.limit amount :=
      Nat.dvd_mul_left_of_dvd (Bits.limit_dvd_limit beyond) _
    exact (Nat.mod_eq_zero_of_dvd divides).symm
  · rw [pattern_wrap, Bits.shiftLeft_eq]

theorem reduceAmount_eq (positive : 0 < v.width) (amount : Nat) :
    v.reduceAmount amount = amount % v.width :=
  if_neg (Nat.ne_of_gt positive)

/-- The logical shift to the right divides by the amount modulo the width. -/
theorem pattern_shiftRight (positive : 0 < v.width) (amount : Nat) :
    (v.shiftRight amount).pattern = v.pattern / Bits.limit (amount % v.width) := by
  rw [shiftRight, pattern_wrap, reduceAmount_eq positive, Bits.shiftRight_eq]
  exact Nat.mod_eq_of_lt (Nat.lt_of_le_of_lt (Nat.div_le_self _ _) v.pattern_lt)

/-- From the width on, nothing but the sign is left of the signed reading. -/
theorem signed_ediv_limit_min (v : Value) (amount : Nat) :
    v.signed / Bits.limit (min amount v.width) = v.signed / Bits.limit amount := by
  by_cases inside : amount ≤ v.width
  · rw [Nat.min_eq_left inside]
  · have beyond : v.width ≤ amount := by omega
    obtain ⟨low, high⟩ := v.signed_bounds
    have more := Bits.limit_mono beyond
    rw [Nat.min_eq_right beyond]
    by_cases negative : v.signed < 0
    · rw [Int.ediv_eq_neg_one_of_neg_of_le negative (by omega),
        Int.ediv_eq_neg_one_of_neg_of_le negative (by omega)]
    · rw [Int.ediv_eq_zero_of_lt (by omega) (by omega),
        Int.ediv_eq_zero_of_lt (by omega) (by omega)]

/-- With the sign bit the signed reading is divided, by any amount. -/
theorem pattern_shiftRightSigned (v : Value) (amount : Nat) :
    ((v.shiftRightSigned amount).pattern : Int) =
      v.signed.fdiv (Bits.limit amount) % Bits.limit v.width := by
  rw [shiftRightSigned_eq, natCast_pattern_wrapInt, signed_ediv_limit_min,
    Int.fdiv_eq_ediv_of_nonneg _ (Int.natCast_nonneg _)]

theorem ty_rotateRight (v : Value) (amount : Nat) : (v.rotateRight amount).ty = v.ty := by
  simp only [rotateRight]
  split <;> rfl

/-- The amount counts modulo the width, so the bit at an index comes from further up, or from the
bottom if that is beyond the top. -/
theorem bit_rotateRight {index : Nat} (inside : index < v.width) (amount : Nat) :
    (v.rotateRight amount).bit index = v.bit ((index + amount) % v.width) := by
  have positive : 0 < v.width := Nat.zero_lt_of_lt inside
  have reduced : amount % v.width < v.width := Nat.mod_lt _ positive
  rw [← Nat.add_mod_mod]
  simp only [rotateRight, reduceAmount_eq positive]
  generalize amount % v.width = n at reduced
  split
  · rename_i zero
    rw [zero, Nat.add_zero, Nat.mod_eq_of_lt inside]
  · rename_i nonzero
    rw [bit_wrap, decide_eq_true inside, Bool.true_and, Nat.testBit_or, Nat.testBit_shiftRight,
      Nat.testBit_shiftLeft, Nat.add_comm n index]
    -- only one of the two pieces has a bit at the index
    by_cases below : index + n < v.width
    · have unfilled : ¬v.width - n ≤ index := by omega
      rw [decide_eq_false unfilled, Bool.false_and, Bool.or_false, Nat.mod_eq_of_lt below]
      rfl
    · have filled : v.width - n ≤ index := by omega
      have source : index - (v.width - n) = index + n - v.width := by omega
      have beyond : v.pattern.testBit (index + n) = false := bit_of_width_le (Nat.not_lt.mp below)
      rw [decide_eq_true filled, Bool.true_and, beyond, Bool.false_or, source,
        Nat.mod_eq_sub_mod (Nat.not_lt.mp below), Nat.mod_eq_of_lt (by omega)]
      rfl

/-- What leaves at one end comes in at the other. -/
theorem rotateLeft_eq (positive : 0 < v.width) (amount : Nat) :
    v.rotateLeft amount = v.rotateRight (v.width - amount % v.width) := by
  have reduced : amount % v.width < v.width := Nat.mod_lt _ positive
  simp only [rotateLeft, rotateRight, reduceAmount_eq positive]
  by_cases zero : amount % v.width = 0
  · simp only [zero, Nat.sub_zero, Nat.mod_self, if_true]
  · have remaining : (v.width - amount % v.width) % v.width = v.width - amount % v.width :=
      Nat.mod_eq_of_lt (by omega)
    have back : v.width - (v.width - amount % v.width) = amount % v.width := by omega
    rw [if_neg zero, remaining, if_neg (by omega), back, Nat.or_comm]

theorem rotateRight_congr (positive : 0 < v.width) {amount other : Nat}
    (same : amount % v.width = other % v.width) : v.rotateRight amount = v.rotateRight other := by
  simp only [rotateRight, reduceAmount_eq positive, same]

theorem rotateRight_of_mod_eq_zero (positive : 0 < v.width) {amount : Nat}
    (whole : amount % v.width = 0) : v.rotateRight amount = v := by
  simp only [rotateRight, reduceAmount_eq positive, whole, if_true]

/-- Rotations one after the other add their amounts. -/
theorem rotateRight_rotateRight (v : Value) (first second : Nat) :
    (v.rotateRight first).rotateRight second = v.rotateRight (first + second) := by
  have type := v.ty_rotateRight first
  have width : (v.rotateRight first).width = v.width := congrArg DataType.width type
  have types :
      ((v.rotateRight first).rotateRight second).ty = (v.rotateRight (first + second)).ty := by
    rw [ty_rotateRight, type, ty_rotateRight]
  refine eq_of_bits types fun index inside => ?_
  have inside : index < v.width := by
    rw [Value.width, ty_rotateRight, type] at inside
    exact inside
  have turned : (index + second) % v.width < v.width := Nat.mod_lt _ (Nat.zero_lt_of_lt inside)
  rw [bit_rotateRight (width ▸ inside), width, bit_rotateRight turned, bit_rotateRight inside,
    Nat.mod_add_mod, Nat.add_assoc, Nat.add_comm second first]

theorem ty_rotateLeft (v : Value) (amount : Nat) : (v.rotateLeft amount).ty = v.ty := by
  simp only [rotateLeft]
  split <;> rfl

theorem bit_rotateLeft {index : Nat} (inside : index < v.width) (amount : Nat) :
    (v.rotateLeft amount).bit index = v.bit (((index : Int) - amount) % v.width).toNat := by
  have positive : 0 < v.width := Nat.zero_lt_of_lt inside
  have reduced : amount % v.width < v.width := Nat.mod_lt _ positive
  have whole := Nat.div_add_mod amount v.width
  have distance : (index : Int) - amount + v.width * ((amount / v.width + 1 : Nat) : Int) =
      ((index + (v.width - amount % v.width) : Nat) : Int) := by
    rw [← Int.natCast_mul, Nat.mul_add_one]
    omega
  rw [rotateLeft_eq positive, bit_rotateRight inside, ← Int.add_mul_emod_self_left _ _ _, distance,
    ← Int.natCast_emod, Int.toNat_natCast]

theorem rotateRight_rotateLeft (positive : 0 < v.width) (amount : Nat) :
    (v.rotateLeft amount).rotateRight amount = v := by
  have reduced : amount % v.width < v.width := Nat.mod_lt _ positive
  rw [rotateLeft_eq positive, rotateRight_rotateRight]
  refine rotateRight_of_mod_eq_zero positive ?_
  rw [← Nat.add_mod_mod, Nat.sub_add_cancel (Nat.le_of_lt reduced), Nat.mod_self]

theorem rotateLeft_rotateLeft (positive : 0 < v.width) (first second : Nat) :
    (v.rotateLeft first).rotateLeft second =
      v.rotateLeft ((first % v.width + second % v.width) % v.width) := by
  have width : (v.rotateLeft first).width = v.width :=
    congrArg DataType.width (v.ty_rotateLeft first)
  have left : first % v.width < v.width := Nat.mod_lt _ positive
  have right : second % v.width < v.width := Nat.mod_lt _ positive
  rw [rotateLeft_eq (width ▸ positive), width, rotateLeft_eq positive, rotateRight_rotateRight,
    rotateLeft_eq positive, Nat.mod_mod]
  refine rotateRight_congr positive ?_
  generalize first % v.width = n at left
  generalize second % v.width = m at right
  by_cases below : n + m < v.width
  · have sum : v.width - n + (v.width - m) = v.width - (n + m) + v.width := by omega
    rw [Nat.mod_eq_of_lt below, sum, Nat.add_mod_right]
  · have above : v.width ≤ n + m := by omega
    have around : (n + m) % v.width = n + m - v.width := by
      rw [Nat.mod_eq_sub_mod above, Nat.mod_eq_of_lt (by omega)]
    have sum : v.width - n + (v.width - m) = v.width - (n + m - v.width) := by omega
    rw [around, sum]

/-- Two values of one type without bits are the same. -/
theorem eq_of_empty {w : Value} (type : v.ty = w.ty) (empty : v.width = 0) : v = w :=
  eq_of_bits type fun index inside => by omega

end Value

theorem Shift.ty_apply (shift : Shift) (v : Value) (amount : Nat) :
    (shift.apply v amount).ty = v.ty := by
  cases shift with
  | left =>
    simp only [apply, Value.shiftLeft]
    split <;> rfl
  | right | rightSigned => rfl
  | rotateLeft => exact v.ty_rotateLeft amount
  | rotateRight => exact v.ty_rotateRight amount

namespace Value

/-- What shifts and rotations by any amount do to a value. All of them keep the type, and a value
without bits as it is. Of a value with bits, a shift to the left multiplies the pattern and cuts the
product; a shift to the right divides the pattern by the power of the reduced amount; with the sign
bit, it divides the signed reading by the power of the full amount, rounding down. A rotation takes
the bit at an index from as far below or above, around the circle; a rotation to the right undoes
one to the left, and two rotations to the left are one. -/
theorem shifts_exact (v : Value) (amount : Nat) :
    (0 < v.width →
      (v.shiftLeft amount).pattern = v.pattern * Bits.limit amount % Bits.limit v.width ∧
      (v.shiftRight amount).pattern = v.pattern / Bits.limit (amount % v.width) ∧
      ((v.shiftRightSigned amount).pattern : Int) =
        v.signed.fdiv (Bits.limit amount) % Bits.limit v.width ∧
      (∀ index < v.width,
        (v.rotateLeft amount).bit index = v.bit (((index : Int) - amount) % v.width).toNat ∧
        (v.rotateRight amount).bit index = v.bit ((index + amount) % v.width)) ∧
      (v.rotateLeft amount).rotateRight amount = v ∧
      ∀ first, (v.rotateLeft first).rotateLeft amount =
        v.rotateLeft ((first % v.width + amount % v.width) % v.width)) ∧
    ∀ result ∈ [v.shiftLeft amount, v.shiftRight amount, v.shiftRightSigned amount,
        v.rotateLeft amount, v.rotateRight amount],
      result.ty = v.ty ∧ (v.width = 0 → result = v) := by
  refine ⟨fun positive => ⟨v.pattern_shiftLeft amount, pattern_shiftRight positive amount,
    v.pattern_shiftRightSigned amount, fun index inside => ?_,
    rotateRight_rotateLeft positive amount,
    fun first => rotateLeft_rotateLeft positive first amount⟩, fun result member => ?_⟩
  · exact ⟨bit_rotateLeft inside amount, bit_rotateRight inside amount⟩
  · obtain ⟨shift, _, rfl⟩ :
        ∃ shift ∈ [Shift.left, .right, .rightSigned, .rotateLeft, .rotateRight],
      shift.apply v amount = result := List.mem_map.mp member
    have type := shift.ty_apply v amount
    exact ⟨type, fun empty => (eq_of_empty type.symm empty).symm⟩

/-- The least signed byte by nine: cleared to the left, halved to the right, all ones with the sign,
and its one bit at the bottom after a rotation. -/
theorem shifts_exact_least :
    ((minimum (.sint 8)).shiftLeft 9).pattern = 0 ∧
    ((minimum (.sint 8)).shiftRight 9).pattern = 64 ∧
    ((minimum (.sint 8)).shiftRightSigned 9).pattern = 255 ∧
    ((minimum (.sint 8)).rotateLeft 9).bit 0 = true ∧
    ((minimum (.sint 8)).rotateLeft 9).rotateRight 9 = minimum (.sint 8) ∧
    (zero (.bits 0)).rotateLeft 9 = zero (.bits 0) := by
  obtain ⟨left, right, signed, bits, undone, _⟩ :=
    (shifts_exact (minimum (.sint 8)) 9).1 (by decide)
  refine ⟨left.trans (by decide), right.trans (by decide), ?_, ?_, undone, ?_⟩
  · exact Int.ofNat_inj.mp (signed.trans (by decide))
  · exact (bits 0 (by decide)).1.trans (by decide)
  · exact ((shifts_exact (zero (.bits 0)) 9).2 _ (by simp)).2 rfl

end Value

end MachineDescription
