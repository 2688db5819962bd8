import MachineDescription.Value.Arithmetic

namespace MachineDescription

namespace Bits

theorem limit_eq_double {width : Nat} (positive : 0 < width) :
    limit width = 2 * limit (width - 1) := by
  rw [← limit_succ, Nat.sub_add_cancel positive]

/-- The top bit of a pattern says in which half of the patterns it is. -/
theorem testBit_top_iff {n width : Nat} (small : n < limit (width + 1)) :
    n.testBit width = true ↔ limit width ≤ n := by
  rw [← Nat.not_lt, lt_limit_iff]
  constructor
  · intro set clear
    rw [clear width (Nat.le_refl _)] at set
    cases set
  · intro unclear
    cases top : n.testBit width with
    | true => rfl
    | false =>
      refine absurd (fun index beyond => ?_) unclear
      rcases Nat.eq_or_lt_of_le beyond with rfl | above
      · exact top
      · exact lt_limit_iff.mp small index above

end Bits

/-- The length of a number is the least width that has a pattern for it. -/
theorem bitLength_le_iff {n width : Nat} : bitLength n ≤ width ↔ n < Bits.limit width := by
  rw [Bits.limit, Nat.one_shiftLeft, bitLength]
  split
  · rename_i zero
    rw [zero]
    exact ⟨fun _ => Nat.two_pow_pos width, fun _ => Nat.zero_le width⟩
  · rename_i positive
    exact Nat.log2_lt positive

namespace DataType

/-- The integers that a value of the type can be made from. Half of the patterns of a signed type
stand for negative integers and none of an unsigned type does; a plain pattern counts both ways. -/
def Holds (n : Int) : DataType → Prop
  | bool => True
  | bits width => n = 0 ∨ 0 < width ∧ -Bits.limit (width - 1) ≤ n ∧ n < Bits.limit width
  | sint width => 0 < width ∧ -Bits.limit (width - 1) ≤ n ∧ n < Bits.limit (width - 1)
  | uint width => 0 < width ∧ 0 ≤ n ∧ n < Bits.limit width

instance (n : Int) : (ty : DataType) → Decidable (ty.Holds n)
  | bool => isTrue trivial
  | bits _ => inferInstanceAs (Decidable (_ ∨ _))
  | sint _ | uint _ => inferInstanceAs (Decidable (_ ∧ _))

/-- An integer of a type of numbers is less in size than the limit of the width. -/
theorem Holds.bounds {ty : DataType} {n : Int} (holds : ty.Holds n) (number : ty.isBool = false) :
    -Bits.limit ty.width ≤ n ∧ n < Bits.limit ty.width := by
  have below : Bits.limit (ty.width - 1) ≤ Bits.limit ty.width := Bits.limit_mono (Nat.sub_le _ _)
  have positive := Bits.limit_pos ty.width
  cases ty with
  | bool => cases number
  | bits | sint | uint =>
    simp only [Holds, width] at holds below positive ⊢
    omega

/-- Both factors are at most half of the limit in size, or none is negative. -/
theorem Holds.mul {signed : Bool} {width : Nat} {a b : Int}
    (left : (integer signed width).Holds a) (right : (integer signed width).Holds b) :
    (integer signed (2 * width)).Holds (a * b) := by
  cases signed with
  | false =>
    obtain ⟨positive, aNonneg, aSmall⟩ := left
    obtain ⟨_, bNonneg, bSmall⟩ := right
    refine ⟨by omega, Int.mul_nonneg aNonneg bNonneg, ?_⟩
    have square : (Bits.limit (2 * width) : Int) = Bits.limit width * Bits.limit width := by
      rw [Nat.two_mul, Bits.limit_add, Int.natCast_mul]
    rw [square]
    have nonzero : (0 : Int) < Bits.limit width := Int.natCast_pos.mpr (Bits.limit_pos width)
    exact Int.mul_lt_mul' (Int.le_of_lt aSmall) bSmall bNonneg nonzero
  | true =>
    obtain ⟨positive, aLow, aHigh⟩ := left
    obtain ⟨_, bLow, bHigh⟩ := right
    have size : (a * b).natAbs ≤ Bits.limit (width - 1) * Bits.limit (width - 1) := by
      rw [Int.natAbs_mul]
      exact Nat.mul_le_mul (by omega) (by omega)
    have square : Bits.limit (2 * width - 1) =
        2 * (Bits.limit (width - 1) * Bits.limit (width - 1)) := by
      rw [← Bits.limit_add, ← Bits.limit_succ]
      exact congrArg Bits.limit (by omega)
    have nonzero : 0 < Bits.limit (width - 1) * Bits.limit (width - 1) :=
      Nat.mul_pos (Bits.limit_pos _) (Bits.limit_pos _)
    exact ⟨by omega, by omega, by omega⟩

/-- A remainder has the sign of the dividend and is not larger. -/
theorem Holds.tmod {signed : Bool} {width : Nat} {a : Int}
    (left : (integer signed width).Holds a) (b : Int) :
    (integer signed width).Holds (a.tmod b) := by
  have size : (a.tmod b).natAbs ≤ a.natAbs := by
    rw [Int.natAbs_tmod]
    exact Nat.mod_le _ _
  have nonneg : 0 ≤ a → 0 ≤ a.tmod b := Int.tmod_nonneg b
  have nonpos : a ≤ 0 → a.tmod b ≤ 0 := by
    intro below
    have negated := Int.tmod_nonneg b (Int.neg_nonneg_of_nonpos below)
    rw [Int.neg_tmod] at negated
    omega
  cases signed with
  | false =>
    obtain ⟨positive, low, high⟩ := left
    exact ⟨positive, nonneg low, by omega⟩
  | true =>
    obtain ⟨positive, low, high⟩ := left
    exact ⟨positive, by omega, by omega⟩

end DataType

namespace Value

/-- A pattern is negative in the upper half, and there is none without bits. -/
theorem signBit_iff {v : Value} :
    v.signBit = true ↔ 0 < v.width ∧ Bits.limit (v.width - 1) ≤ v.pattern := by
  simp only [signBit, Bool.and_eq_true, decide_eq_true_eq]
  refine and_congr_right fun positive => Bits.testBit_top_iff ?_
  rw [Nat.sub_add_cancel positive]
  exact v.pattern_lt

theorem signed_eq (v : Value) :
    v.signed = if 0 < v.width ∧ Bits.limit (v.width - 1) ≤ v.pattern then
      (v.pattern : Int) - Bits.limit v.width else v.pattern := by
  simp only [signed, signBit_iff]

/-- The signed reading is less in size than the limit, also of an empty pattern. -/
theorem signed_bounds (v : Value) :
    -Bits.limit v.width ≤ v.signed ∧ v.signed < Bits.limit v.width := by
  have small : v.pattern < Bits.limit v.width := v.pattern_lt
  rw [signed_eq]
  split <;> omega

theorem holds_signed {v : Value} (positive : 0 < v.width) :
    (DataType.sint v.width).Holds v.signed := by
  have double := Bits.limit_eq_double positive
  have small : v.pattern < Bits.limit v.width := v.pattern_lt
  rw [signed_eq]
  refine ⟨positive, ?_⟩
  split <;> omega

/-- What a pattern reads as, the type of that signedness and width holds. -/
theorem holds_reading {v : Value} (positive : 0 < v.width) (isSigned : Bool) :
    (DataType.integer isSigned v.width).Holds (v.reading isSigned) := by
  cases isSigned with
  | true => exact holds_signed positive
  | false => exact ⟨positive, Int.natCast_nonneg _, Int.ofNat_lt.mpr v.pattern_lt⟩

theorem pattern_minimum (ty : DataType) :
    (minimum ty).pattern = if ty.isSigned ∧ 0 < ty.width then Bits.limit (ty.width - 1) else 0 := by
  unfold minimum
  split
  · rename_i negatives
    have double := Bits.limit_eq_double negatives.2
    have nonzero := Bits.limit_pos (ty.width - 1)
    exact Nat.mod_eq_of_lt (by omega)
  · rfl

theorem pattern_maximum (ty : DataType) :
    (maximum ty).pattern =
      if ty.isSigned then Bits.ones (ty.width - 1) else Bits.ones ty.width := by
  have nonzero := Bits.limit_pos ty.width
  have less : Bits.limit (ty.width - 1) ≤ Bits.limit ty.width := Bits.limit_mono (Nat.sub_le _ _)
  unfold maximum
  split <;> exact Nat.mod_eq_of_lt (by unfold Bits.ones; omega)

@[simp]
theorem ty_minimum (ty : DataType) : (minimum ty).ty = ty := by
  unfold minimum
  split <;> rfl

@[simp]
theorem ty_maximum (ty : DataType) : (maximum ty).ty = ty := by
  unfold maximum
  split <;> rfl

theorem integer_minimum_sint {width : Nat} (positive : 0 < width) :
    (minimum (.sint width)).integer = -Bits.limit (width - 1) := by
  have double := Bits.limit_eq_double positive
  have pattern : (minimum (.sint width)).pattern = Bits.limit (width - 1) :=
    (pattern_minimum (.sint width)).trans (if_pos ⟨rfl, positive⟩)
  rw [integer, ty_minimum]
  change signed _ = _
  rw [signed_eq, pattern, Value.width, ty_minimum, DataType.width, if_pos ⟨positive, Nat.le_refl _⟩]
  omega

theorem integer_maximum_sint (width : Nat) :
    (maximum (.sint width)).integer = Bits.limit (width - 1) - 1 := by
  have nonzero := Bits.limit_pos (width - 1)
  have pattern : (maximum (.sint width)).pattern = Bits.ones (width - 1) :=
    (pattern_maximum (.sint width)).trans (if_pos rfl)
  rw [integer, ty_maximum]
  change signed _ = _
  rw [signed_eq, pattern, Value.width, ty_maximum, DataType.width, Bits.ones, if_neg (by omega)]
  omega

theorem integer_minimum_uint (width : Nat) : (minimum (.uint width)).integer = 0 := by
  rw [integer, ty_minimum]
  exact congrArg Nat.cast (pattern_minimum (.uint width))

theorem integer_maximum_uint (width : Nat) :
    (maximum (.uint width)).integer = Bits.limit width - 1 := by
  have nonzero := Bits.limit_pos width
  have pattern : (maximum (.uint width)).integer = Bits.ones width := by
    rw [integer, ty_maximum]
    exact congrArg Nat.cast (pattern_maximum (.uint width))
  rw [pattern, Bits.ones]
  omega

/-- A plain pattern holds what is in its signed or in its unsigned range. -/
theorem requiredBits_le_iff {n : Int} {width : Nat} :
    requiredBits n ≤ width ↔ (DataType.bits width).Holds n := by
  have nonzero := Bits.limit_pos (width - 1)
  unfold requiredBits DataType.Holds
  split
  · have below : bitLength (-n - 1).toNat + 1 ≤ width ↔
        0 < width ∧ bitLength (-n - 1).toNat ≤ width - 1 := by omega
    rw [below, bitLength_le_iff]
    have above := Bits.limit_pos width
    omega
  · rw [bitLength_le_iff]
    rcases Nat.eq_zero_or_pos width with rfl | positive
    · simp only [Bits.limit_zero]
      omega
    · have above := Bits.limit_pos width
      omega

/-- The value that stands for an integer which the type holds. -/
def encoding (n : Int) (ty : DataType) : Value :=
  if ty.isBool then ofBool (n ≠ 0) else wrapInt ty n

/-- A negative integer stands at the distance of its size from the limit. -/
theorem pattern_wrapInt_eq {ty : DataType} {n : Int} (low : -Bits.limit ty.width ≤ n)
    (high : n < Bits.limit ty.width) :
    ((wrapInt ty n).pattern : Int) = if n < 0 then n + Bits.limit ty.width else n := by
  have nonneg : 0 ≤ n % Bits.limit ty.width :=
    Int.emod_nonneg n (Int.ne_of_gt (Int.natCast_pos.mpr (Bits.limit_pos _)))
  rw [pattern_wrapInt, Int.toNat_of_nonneg nonneg]
  split
  · rw [← Int.add_emod_right]
    exact Int.emod_eq_of_lt (by omega) (by omega)
  · exact Int.emod_eq_of_lt (by omega) high

theorem unsigned_wrapInt {ty : DataType} {n : Int} (low : 0 ≤ n) (high : n < Bits.limit ty.width) :
    (wrapInt ty n).unsigned = n := by
  change ((wrapInt ty n).pattern : Int) = n
  rw [pattern_wrapInt_eq (by omega) high, if_neg (by omega)]

/-- An integer of the signed range is read back, whatever the type of that width. -/
theorem signed_wrapInt {ty : DataType} {n : Int} (holds : (DataType.sint ty.width).Holds n) :
    (wrapInt ty n).signed = n := by
  obtain ⟨positive, low, high⟩ := holds
  have double := Bits.limit_eq_double positive
  have pattern : ((wrapInt ty n).pattern : Int) = if n < 0 then n + Bits.limit ty.width else n :=
    pattern_wrapInt_eq (by omega) (by omega)
  rw [signed_eq, Value.width, ty_wrapInt]
  split at pattern <;> split <;> omega

/-- A signed or unsigned type reads the integer back that a value is made from. -/
theorem integer_encoding {signed : Bool} {width : Nat} {n : Int}
    (holds : (DataType.integer signed width).Holds n) :
    (encoding n (.integer signed width)).integer = n := by
  cases signed with
  | false =>
    obtain ⟨_, low, high⟩ := holds
    exact @unsigned_wrapInt (.uint width) n low high
  | true => exact @signed_wrapInt (.sint width) n holds

theorem ite_refuse_eq_ok_iff {p : Prop} [Decidable p] {made v : Value} {fault : ValueFault} :
    (if p then .ok made else refuse fault) = .ok v ↔ p ∧ v = made := by
  split
  · rename_i holds
    exact ⟨fun same => ⟨holds, (Except.ok.inj same).symm⟩, fun found => congrArg _ found.2.symm⟩
  · rename_i fails
    exact ⟨fun same => (nomatch same), fun found => absurd found.1 fails⟩

/-- A value is made from the integers that the type holds, and from no other. -/
theorem ofInteger_eq_ok_iff {n : Int} {ty : DataType} {v : Value} :
    ofInteger n ty = .ok v ↔ ty.Holds n ∧ v = encoding n ty := by
  cases ty with
  | bool =>
    exact ⟨fun made => ⟨trivial, (Except.ok.inj made).symm⟩, fun holds => congrArg _ holds.2.symm⟩
  | bits width =>
    rw [← requiredBits_le_iff]
    exact ite_refuse_eq_ok_iff
  | sint width =>
    have within : (DataType.sint width).Holds n ↔ 0 < width ∧
        (minimum (.sint width)).integer ≤ n ∧ n ≤ (maximum (.sint width)).integer := by
      refine and_congr_right fun positive => ?_
      rw [integer_minimum_sint positive, integer_maximum_sint]
      omega
    rw [within]
    exact ite_refuse_eq_ok_iff
  | uint width =>
    have within : (DataType.uint width).Holds n ↔ 0 < width ∧
        (minimum (.uint width)).integer ≤ n ∧ n ≤ (maximum (.uint width)).integer := by
      rw [integer_minimum_uint, integer_maximum_uint, DataType.Holds]
      omega
    rw [within]
    exact ite_refuse_eq_ok_iff

theorem kind_of_ite_refuse {p : Prop} [Decidable p] {made : Value} {fault : ValueFault} {e : Error}
    (failed : (if p then .ok made else refuse fault) = .error e) : e.kind = fault.kind := by
  split at failed <;> cases failed
  rfl

/-- Whatever the type, an integer is refused for being out of its range. -/
theorem kind_of_ofInteger {n : Int} {ty : DataType} {e : Error}
    (failed : ofInteger n ty = .error e) : e.kind = .range := by
  cases ty with
  | bool => cases failed
  | bits | sint | uint => exact kind_of_ite_refuse failed

end Value

end MachineDescription
