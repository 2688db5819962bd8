import MachineDescription.Proofs.CheckedIntegers
import MachineDescription.Proofs.ConditionFlags

namespace MachineDescription

/-- A quotient and a remainder of integers, rounded toward zero. -/
structure IsDivision (dividend divisor quotient remainder : Int) : Prop where
  balance : dividend = quotient * divisor + remainder
  small : remainder.natAbs < divisor.natAbs
  side : remainder = 0 ∨ remainder.sign = dividend.sign

/-- Values are divided as integers, and the quotient is rounded toward zero. The remainder is no
larger than the dividend and on the same side of zero, so it always fits. -/
theorem isDivision_tdiv (a : Int) {b : Int} (nonzero : b ≠ 0) :
    IsDivision a b (a.tdiv b) (a.tmod b) where
  balance := (Int.tdiv_mul_add_tmod a b).symm
  small := by
    rw [Int.natAbs_tmod]
    exact Nat.mod_lt _ (Int.natAbs_pos.mpr nonzero)
  side := by
    rw [Int.sign_tmod]
    by_cases divides : b ∣ a
    · exact Or.inl (Int.tmod_eq_zero_of_dvd divides)
    · exact Or.inr (if_neg divides)

namespace DataType

/-- The least integer of a signed type by minus one. -/
def Overflows (signed : Bool) (width : Nat) (a b : Int) : Prop :=
  signed = true ∧ a = -Bits.limit (width - 1) ∧ b = -1

instance (signed : Bool) (width : Nat) (a b : Int) : Decidable (Overflows signed width a b) :=
  inferInstanceAs (Decidable (_ ∧ _))

/-- By a divisor of size two or more the dividend is halved at least, so only a divisor of size one
can lead out of the range. -/
theorem Holds.tdiv_signed {width : Nat} {a b : Int} (left : (sint width).Holds a)
    (nonzero : b ≠ 0) :
    (sint width).Holds (a.tdiv b) ↔ ¬(a = -Bits.limit (width - 1) ∧ b = -1) := by
  obtain ⟨positive, low, high⟩ := left
  have bound := Bits.limit_pos (width - 1)
  rw [Holds, and_iff_right positive]
  by_cases unit : b.natAbs = 1
  · have either : b = 1 ∨ b = -1 := by omega
    rcases either with rfl | rfl
    · rw [Int.tdiv_one]
      omega
    · rw [Int.tdiv_neg, Int.tdiv_one]
      omega
  · have halved : (a.tdiv b).natAbs ≤ a.natAbs / 2 := by
      rw [Int.natAbs_tdiv]
      exact Nat.div_le_div_left (by omega) (by decide)
    omega

/-- The quotient fits too but for one pair of operands, the least signed integer and minus one. -/
theorem Holds.tdiv_iff {signed : Bool} {width : Nat} {a b : Int}
    (left : (integer signed width).Holds a) (right : (integer signed width).Holds b)
    (nonzero : b ≠ 0) :
    (integer signed width).Holds (a.tdiv b) ↔ ¬Overflows signed width a b := by
  cases signed with
  | true => exact (left.tdiv_signed nonzero).trans (not_congr (and_iff_right rfl).symm)
  | false =>
    obtain ⟨positive, low, high⟩ := left
    obtain ⟨_, divisor, _⟩ := right
    have nonneg := Int.tdiv_nonneg low divisor
    have less := Int.tdiv_le_self b low
    have holds : (integer false width).Holds (a.tdiv b) := ⟨positive, nonneg, by omega⟩
    simp [holds, Overflows]

end DataType

namespace Value

variable {v w : Value} {operation : Operation} {signed : Bool}

/-- A zero pattern is refused before anything is read as an integer. -/
theorem Numbers.requireDivision_of_zero (numbers : v.Numbers w) (zero : w.pattern = 0) :
    v.requireDivision operation w = .error (.of (.value (.byZero operation v w))) :=
  (numbers.checked operation _).trans (if_pos (beq_iff_eq.mpr zero))

theorem Numbers.requireDivision (numbers : v.Numbers w) (nonzero : w.pattern ≠ 0) :
    v.requireDivision operation w = .ok () :=
  requireDivision_eq_ok_iff.mpr
    ⟨numbers.number, numbers.positive, numbers.same, beq_eq_false_iff_ne.mpr nonzero⟩

theorem divide_of_failed {err : Error} (failed : v.requireDivision .division w = .error err) :
    v.divide w signed = .error err := by
  rw [divide, failed]
  rfl

theorem modulo_of_failed {err : Error} (failed : v.requireDivision .modulo w = .error err) :
    v.modulo w signed = .error err := by
  rw [modulo, failed]
  rfl

theorem divide_of_made {quotient : Value} (divisible : v.requireDivision .division w = .ok ())
    (made : ofInteger ((v.reading signed).tdiv (w.reading signed)) (.integer signed v.width) =
      .ok quotient) :
    v.divide w signed = .ok quotient := by
  simp only [divide, divisible, made]
  rfl

/-- Of numbers of one width, there is no quotient and no remainder by zero, and the error is one of
evaluation. By any other divisor there is always a remainder, and a quotient unless the least signed
integer is divided by minus one, which is an error of evaluation too. They are the quotient and the
remainder of the readings, and integers of the width and of the signedness that is asked for. -/
theorem divide_modulo_exact (number : v.ty.isBool = false) (positive : 0 < v.width)
    (same : v.width = w.width) (signed : Bool) :
    (w.pattern = 0 →
      (∃ err, v.divide w signed = .error err ∧ err.kind = .evaluation) ∧
      ∃ err, v.modulo w signed = .error err ∧ err.kind = .evaluation) ∧
    (w.pattern ≠ 0 → ∃ quotient remainder,
      IsDivision (v.reading signed) (w.reading signed) quotient remainder ∧
      (∃ result, v.modulo w signed = .ok result ∧ result.ty = .integer signed v.width ∧
        result.integer = remainder) ∧
      (DataType.Overflows signed v.width (v.reading signed) (w.reading signed) →
        ∃ err, v.divide w signed = .error err ∧ err.kind = .evaluation) ∧
      (¬DataType.Overflows signed v.width (v.reading signed) (w.reading signed) →
        ∃ result, v.divide w signed = .ok result ∧ result.ty = .integer signed v.width ∧
          result.integer = quotient)) := by
  have numbers : v.Numbers w := ⟨number, positive, same⟩
  refine ⟨fun zero => ?_, fun nonzero => ?_⟩
  · exact ⟨⟨_, divide_of_failed (numbers.requireDivision_of_zero zero), rfl⟩,
      _, modulo_of_failed (numbers.requireDivision_of_zero zero), rfl⟩
  · have divisor : w.reading signed ≠ 0 := mt (w.reading_eq_zero_iff signed).mp nonzero
    have left := holds_reading positive signed
    have right := holds_reading numbers.positive_right signed
    rw [← same] at right
    have fits := left.tdiv_iff right divisor
    refine ⟨_, _, isDivision_tdiv _ divisor, ?_, fun overflows => ?_, fun within => ?_⟩
    · exact ⟨_, modulo_eq (numbers.requireDivision nonzero), ty_encoding _ _,
        integer_encoding (left.tmod _)⟩
    · obtain ⟨_, failed, _⟩ := ofInteger_of_outside (fun holds => fits.mp holds overflows)
      exact ⟨_, divide_of_refused (numbers.requireDivision nonzero) failed, rfl⟩
    · have holds := fits.mpr within
      have made := ofInteger_eq_ok_iff.mpr ⟨holds, rfl⟩
      exact ⟨_, divide_of_made (numbers.requireDivision nonzero) made, ty_encoding _ _,
        integer_encoding holds⟩

/-- Operands of any type are read as asked for: minus seven by two, with a remainder below zero; a
bit by a truth value, both minus one, with a remainder only; and no remainder by zero. -/
theorem divide_modulo_exact_edges :
    (∃ quotient remainder,
      (wrap (.uint 8) 249).divide (wrap (.bits 8) 2) true = .ok quotient ∧
      (wrap (.uint 8) 249).modulo (wrap (.bits 8) 2) true = .ok remainder ∧
      quotient.ty = .sint 8 ∧ remainder.ty = .sint 8 ∧
      IsDivision (-7) 2 quotient.integer remainder.integer) ∧
    ((∃ err, (wrap (.bits 1) 1).divide (ofBool true) true = .error err ∧ err.kind = .evaluation) ∧
      ∃ remainder, (wrap (.bits 1) 1).modulo (ofBool true) true = .ok remainder) ∧
    ∃ err, (wrap (.bits 8) 249).modulo (zero (.bits 8)) false = .error err ∧
      err.kind = .evaluation := by
  refine ⟨?_, ?_, ?_⟩
  · obtain ⟨_, _, division, ⟨remainder, found, type, rfl⟩, _, within⟩ :=
      (@divide_modulo_exact (wrap (.uint 8) 249) (wrap (.bits 8) 2) rfl (by decide) rfl true).2
        (by decide)
    obtain ⟨quotient, made, typeToo, rfl⟩ := within (by decide)
    exact ⟨quotient, remainder, made, found, typeToo, type, division⟩
  · obtain ⟨_, _, _, ⟨remainder, found, _⟩, overflow, _⟩ :=
      (@divide_modulo_exact (wrap (.bits 1) 1) (ofBool true) rfl (by decide) rfl true).2
        (by decide)
    exact ⟨overflow (by decide), remainder, found⟩
  · exact ((@divide_modulo_exact (wrap (.bits 8) 249) (zero (.bits 8)) rfl (by decide) rfl false).1
      rfl).2

end Value

end MachineDescription
