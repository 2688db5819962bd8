import MachineDescription.Proofs.TwosComplement

namespace MachineDescription.Value

variable {n : Int} {ty : DataType}

/-- A value is made from the integers that its type holds: any for a truth value, those of the
signed and the unsigned range together for a plain pattern, those of its own range for a number. -/
theorem exists_ofInteger_iff : (∃ v, ofInteger n ty = .ok v) ↔ ty.Holds n := by
  constructor
  · rintro ⟨v, made⟩
    exact (ofInteger_eq_ok_iff.mp made).1
  · intro holds
    exact ⟨_, ofInteger_eq_ok_iff.mpr ⟨holds, rfl⟩⟩

theorem ofInteger_of_outside (outside : ¬ty.Holds n) :
    ∃ err, ofInteger n ty = .error err ∧ err.kind = .range := by
  cases made : ofInteger n ty with
  | error err => exact ⟨err, rfl, kind_of_ofInteger made⟩
  | ok v => exact absurd (exists_ofInteger_iff.mp ⟨v, made⟩) outside

theorem ty_encoding (n : Int) (ty : DataType) : (encoding n ty).ty = ty := by
  cases ty <;> rfl

/-- The pattern of an integer is its remainder, except that a truth value asks only whether it is
zero. -/
theorem pattern_encoding (n : Int) (ty : DataType) :
    ((encoding n ty).pattern : Int) =
      if ty = .bool then if n = 0 then 0 else 1 else n % Bits.limit ty.width := by
  cases ty with
  | bool =>
    rw [if_pos rfl]
    by_cases zero : n = 0 <;> simp [encoding, DataType.isBool, ofBool, zero]
  | bits | sint | uint =>
    rw [if_neg nofun]
    exact natCast_pattern_wrapInt _ n

/-- Only a type of numbers without bits does not hold the integer that its empty pattern denotes. -/
theorem holds_integer {v : Value} (signed : v.ty ≠ .sint 0) (unsigned : v.ty ≠ .uint 0) :
    v.ty.Holds v.integer := by
  obtain ⟨ty, pattern, small⟩ := v
  cases ty with
  | bool => trivial
  | bits width =>
    rw [← requiredBits_le_iff]
    exact bitLength_le_iff.mpr small
  | sint width =>
    have positive : 0 < width := Nat.pos_of_ne_zero fun zero => signed (congrArg _ zero)
    exact holds_reading (v := ⟨.sint width, pattern, small⟩) positive true
  | uint width =>
    have positive : 0 < width := Nat.pos_of_ne_zero fun zero => unsigned (congrArg _ zero)
    exact holds_reading (v := ⟨.uint width, pattern, small⟩) positive false

/-- A value is made exactly from the integers that the type holds, and any other is out of range.
The pattern is the remainder of the integer at the width, or tells of a truth value whether it is
zero; a signed or unsigned type reads the integer back. The integer that a value denotes gives the
value back, whatever its type but for numbers without bits. -/
theorem ofInteger_checked :
    (∀ (n : Int) (ty : DataType),
      ((∃ v, ofInteger n ty = .ok v) ↔ ty.Holds n) ∧
      (¬ty.Holds n → ∃ err, ofInteger n ty = .error err ∧ err.kind = .range) ∧
      ∀ v, ofInteger n ty = .ok v →
        v.ty = ty ∧
        (v.pattern : Int) =
          (if ty = .bool then if n = 0 then 0 else 1 else n % Bits.limit ty.width) ∧
        ∀ signed width, ty = .integer signed width → v.integer = n) ∧
    ∀ v : Value, v.ty ≠ .sint 0 → v.ty ≠ .uint 0 → ofInteger v.integer v.ty = .ok v := by
  refine ⟨fun n ty => ⟨exists_ofInteger_iff, ofInteger_of_outside, ?_⟩, ?_⟩
  · intro v made
    obtain ⟨holds, rfl⟩ := ofInteger_eq_ok_iff.mp made
    refine ⟨ty_encoding n ty, pattern_encoding n ty, ?_⟩
    rintro signed width rfl
    exact integer_encoding holds
  · intro v signed unsigned
    exact ofInteger_eq_ok_iff.mpr
      ⟨holds_integer signed unsigned, (v.encoding_reading v.ty.isSigned).symm⟩

/-- At the ends of the ranges: minus one is a plain bit, one is no signed bit, a number without bits
is not even zero, and the least signed byte is made and made again. -/
theorem ofInteger_checked_edges :
    (∃ v, ofInteger (-1) (.bits 1) = .ok v ∧ v.pattern = 1) ∧
    (∃ err, ofInteger 1 (.sint 1) = .error err ∧ err.kind = .range) ∧
    (∃ err, ofInteger 0 (.uint 0) = .error err ∧ err.kind = .range) ∧
    (∃ v, ofInteger (-128) (.sint 8) = .ok v ∧ v.integer = -128) ∧
    ofInteger (minimum (.sint 8)).integer (.sint 8) = .ok (minimum (.sint 8)) := by
  obtain ⟨checked, again⟩ := ofInteger_checked
  refine ⟨?_, (checked 1 (.sint 1)).2.1 (by decide), (checked 0 (.uint 0)).2.1 (by decide), ?_,
    again (minimum (.sint 8)) (by decide) (by decide)⟩
  · obtain ⟨v, made⟩ := (checked (-1) (.bits 1)).1.mpr (by decide)
    obtain ⟨_, pattern, _⟩ := (checked (-1) (.bits 1)).2.2 v made
    exact ⟨v, made, Int.ofNat_inj.mp (pattern.trans (by decide))⟩
  · obtain ⟨v, made⟩ := (checked (-128) (.sint 8)).1.mpr (by decide)
    exact ⟨v, made, ((checked (-128) (.sint 8)).2.2 v made).2.2 true 8 rfl⟩

end MachineDescription.Value
