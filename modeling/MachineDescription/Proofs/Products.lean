import MachineDescription.Proofs.CheckedIntegers
import MachineDescription.Proofs.ConditionFlags

namespace MachineDescription.Value

variable {v w : Value}

theorem encoding_number (n : Int) (signed : Bool) (width : Nat) :
    encoding n (.integer signed width) = wrapInt (.integer signed width) n := by
  cases signed <;> rfl

namespace Numbers

/-- A short product is cut to the width of the operands. -/
theorem multiply_eq (numbers : v.Numbers w) :
    v.multiply w = .ok (wrap v.ty (v.pattern * w.pattern)) :=
  numbers.checked .multiplication _

/-- Readings and patterns have the same product up to a multiple of the limit. -/
theorem wrapInt_product (numbers : v.Numbers w) (signed : Bool) :
    wrapInt v.ty (v.reading signed * w.reading signed) = wrap v.ty (v.pattern * w.pattern) := by
  have right := w.reading_emod signed
  rw [← numbers.same] at right
  rw [← wrapInt_natCast, Int.natCast_mul]
  refine wrapInt_congr ?_
  rw [Int.mul_emod, v.reading_emod signed, right, ← Int.mul_emod]

end Numbers

/-- Numbers of one width have a long product in both signednesses, of double width and equal to the
product of the readings. Their short product is the product of the readings in either signedness, up
to the width, and both long products are truncated to it. -/
theorem multiply_exact (number : v.ty.isBool = false) (positive : 0 < v.width)
    (same : v.width = w.width) :
    ∃ short, v.multiply w = .ok short ∧ short.ty = v.ty ∧
      ∀ signed,
        (short.pattern : Int) = v.reading signed * w.reading signed % Bits.limit v.width ∧
        ∃ long, v.multiplyLong w signed = .ok long ∧ long.ty = .integer signed (2 * v.width) ∧
          long.integer = v.reading signed * w.reading signed ∧ long.truncate v.ty = .ok short := by
  have numbers : v.Numbers w := ⟨number, positive, same⟩
  refine ⟨_, numbers.multiply_eq, rfl, fun signed => ?_⟩
  rw [← numbers.wrapInt_product signed]
  have made := @ofInteger_product v w signed positive same
  refine ⟨natCast_pattern_wrapInt _ _, _, multiplyLong_eq number positive same, ty_encoding _ _,
    integer_encoding (ofInteger_eq_ok_iff.mp made).1, ?_⟩
  have fits : v.ty.width ≤ (DataType.integer signed (2 * v.width)).width := by
    rw [DataType.width_integer]
    exact Nat.le_mul_of_pos_left _ (by decide)
  rw [encoding_number, truncate_wrapInt fits]

/-- The least signed byte by itself, and one bit by a truth value: minus one by minus one is one,
which a signed number of two bits still holds. -/
theorem multiply_exact_least :
    (∃ short long, (minimum (.sint 8)).multiply (minimum (.sint 8)) = .ok short ∧
      (minimum (.sint 8)).multiplyLong (minimum (.sint 8)) true = .ok long ∧
      long.ty = .sint 16 ∧ long.integer = 16384 ∧ long.truncate (.sint 8) = .ok short) ∧
    ∃ short long, (wrap (.bits 1) 1).multiply (ofBool true) = .ok short ∧
      (wrap (.bits 1) 1).multiplyLong (ofBool true) true = .ok long ∧
      long.ty = .sint 2 ∧ long.integer = 1 ∧ long.truncate (.bits 1) = .ok short := by
  refine ⟨?_, ?_⟩
  · obtain ⟨short, made, _, each⟩ :=
      @multiply_exact (minimum (.sint 8)) (minimum (.sint 8)) rfl (by decide) rfl
    obtain ⟨_, long, found, type, value, cut⟩ := each true
    exact ⟨short, long, made, found, type, value, cut⟩
  · obtain ⟨short, made, _, each⟩ :=
      @multiply_exact (wrap (.bits 1) 1) (ofBool true) rfl (by decide) rfl
    obtain ⟨_, long, found, type, value, cut⟩ := each true
    exact ⟨short, long, made, found, type, value, cut⟩

end MachineDescription.Value
