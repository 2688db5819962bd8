import MachineDescription.Proofs.TwosComplement

namespace MachineDescription

theorem DataType.Holds.wider {low high : Nat} {n : Int} (holds : (sint low).Holds n)
    (fits : low ≤ high) : (sint high).Holds n := by
  obtain ⟨positive, least, greatest⟩ := holds
  have more : Bits.limit (low - 1) ≤ Bits.limit (high - 1) := Bits.limit_mono (by omega)
  exact ⟨by omega, by omega, by omega⟩

namespace Value

variable {v r : Value} {ty : DataType}

theorem refuse_ite_eq_ok_iff {p : Prop} [Decidable p] {made : Value} {fault : ValueFault} :
    (if p then refuse fault else .ok made) = .ok r ↔ ¬p ∧ r = made := by
  rw [← ite_not]
  exact ite_refuse_eq_ok_iff

theorem truncate_eq_ok_iff : v.truncate ty = .ok r ↔ ty.width ≤ v.width ∧ r = v.cast ty := by
  rw [← Nat.not_lt]
  exact refuse_ite_eq_ok_iff

theorem zeroExtend_eq_ok_iff : v.zeroExtend ty = .ok r ↔ v.width ≤ ty.width ∧ r = v.cast ty := by
  rw [← Nat.not_lt]
  exact refuse_ite_eq_ok_iff

theorem signExtend_eq_ok_iff :
    v.signExtend ty = .ok r ↔ v.width ≤ ty.width ∧ r = wrapInt ty v.signed := by
  by_cases fits : v.width ≤ ty.width
  · rw [signExtend_eq fits, and_iff_right fits, Except.ok.injEq, eq_comm]
  · have refused : v.signExtend ty = refuse (.extendToNarrower .sign v ty) :=
      if_pos (Nat.not_le.mp fits)
    rw [refused]
    exact ⟨nofun, fun made => absurd made.1 fits⟩

/-- A cast truncates to a type that is not wider and fills with zeros for any other. -/
theorem cast_eq_wrapInt (v : Value) (ty : DataType) : v.cast ty = wrapInt ty v.unsigned :=
  (wrapInt_natCast ty v.pattern).symm

/-- A type that is not narrower reads the integer of a reading as the value does. An empty pattern
has no sign bit, and is zero in either reading. -/
theorem reading_wrapInt_reading (fits : v.width ≤ ty.width) (isSigned : Bool) :
    (wrapInt ty (v.reading isSigned)).reading isSigned = v.reading isSigned := by
  have small : v.pattern < Bits.limit ty.width :=
    Nat.lt_of_lt_of_le v.pattern_lt (Bits.limit_mono fits)
  cases isSigned with
  | false => exact unsigned_wrapInt (Int.natCast_nonneg _) (Int.ofNat_lt.mpr small)
  | true =>
    rcases Nat.eq_zero_or_pos v.width with empty | positive
    · have zero : v.reading true = 0 := by
        have below : v.pattern < Bits.limit v.width := v.pattern_lt
        rw [empty, Bits.limit_zero] at below
        exact (v.reading_eq_zero_iff true).mpr (by omega)
      rw [zero, reading_eq_zero_iff, pattern_wrapInt, Int.zero_emod]
      rfl
    · exact signed_wrapInt ((holds_signed positive).wider fits)

/-- Cutting a wider pattern back to the type from which it came gives the value again. -/
theorem truncate_wrapInt_reading (fits : v.width ≤ ty.width) (isSigned : Bool) :
    (wrapInt ty (v.reading isSigned)).truncate v.ty = .ok v := by
  rw [truncate_wrapInt fits, wrapInt_reading]

/-- A value can be extended, with its sign bit or with zeros, exactly to the types that are not
narrower. The result has the type, reads as the value does, signed or unsigned, and is truncated to
the type of the value again. A value can be truncated exactly to the types that are not wider, and
keeps its pattern up to the limit of the width. A cast is one or the other. -/
theorem width_changes_exact (v : Value) (ty : DataType) :
    (((∃ r, v.signExtend ty = .ok r) ↔ v.width ≤ ty.width) ∧
      ∀ r, v.signExtend ty = .ok r →
        r.ty = ty ∧ r.signed = v.signed ∧ r.truncate v.ty = .ok v) ∧
    (((∃ r, v.zeroExtend ty = .ok r) ↔ v.width ≤ ty.width) ∧
      ∀ r, v.zeroExtend ty = .ok r →
        r.ty = ty ∧ r.unsigned = v.unsigned ∧ r.truncate v.ty = .ok v) ∧
    (((∃ r, v.truncate ty = .ok r) ↔ ty.width ≤ v.width) ∧
      ∀ r, v.truncate ty = .ok r → r.ty = ty ∧ r.pattern = v.pattern % Bits.limit ty.width) ∧
    (ty.width ≤ v.width → v.truncate ty = .ok (v.cast ty)) ∧
    (v.width < ty.width → v.zeroExtend ty = .ok (v.cast ty)) := by
  refine ⟨⟨?_, ?_⟩, ⟨?_, ?_⟩, ⟨?_, ?_⟩, fun narrower => ?_, fun wider => ?_⟩
  · simp only [signExtend_eq_ok_iff, exists_and_left, exists_eq, and_true]
  · intro r extended
    obtain ⟨fits, rfl⟩ := signExtend_eq_ok_iff.mp extended
    exact ⟨rfl, reading_wrapInt_reading fits true, truncate_wrapInt_reading fits true⟩
  · simp only [zeroExtend_eq_ok_iff, exists_and_left, exists_eq, and_true]
  · intro r extended
    obtain ⟨fits, rfl⟩ := zeroExtend_eq_ok_iff.mp extended
    rw [cast_eq_wrapInt]
    exact ⟨rfl, reading_wrapInt_reading fits false, truncate_wrapInt_reading fits false⟩
  · simp only [truncate_eq_ok_iff, exists_and_left, exists_eq, and_true]
  · intro r truncated
    obtain ⟨_, rfl⟩ := truncate_eq_ok_iff.mp truncated
    exact ⟨rfl, rfl⟩
  · exact truncate_eq_ok_iff.mpr ⟨narrower, rfl⟩
  · exact zeroExtend_eq_ok_iff.mpr ⟨Nat.le_of_lt wider, rfl⟩

/-- Minus two in four bits and the truth value that is set, each to a plain byte and back, and a
value without bits to a signed bit. -/
theorem width_changes_exact_edges :
    (∃ r, (wrapInt (.sint 4) (-2)).signExtend (.bits 8) = .ok r ∧ r.signed = -2 ∧
      r.truncate (.sint 4) = .ok (wrapInt (.sint 4) (-2))) ∧
    (∃ r, (ofBool true).signExtend (.bits 8) = .ok r ∧ r.signed = -1 ∧
      r.truncate .bool = .ok (ofBool true)) ∧
    (∃ r, (wrapInt (.sint 4) (-2)).zeroExtend (.sint 8) = .ok r ∧ r.unsigned = 14 ∧
      r.truncate (.sint 4) = .ok (wrapInt (.sint 4) (-2))) ∧
    (∃ r, (zero (.uint 0)).signExtend (.sint 1) = .ok r ∧ r.signed = 0) ∧
    (∀ r, (wrapInt (.sint 4) (-2)).signExtend (.bits 3) ≠ .ok r) ∧
    (wrapInt (.sint 4) (-2)).truncate .bool = .ok ((wrapInt (.sint 4) (-2)).cast .bool) ∧
    (ofBool true).zeroExtend (.sint 8) = .ok ((ofBool true).cast (.sint 8)) := by
  obtain ⟨byte, _⟩ := width_changes_exact (wrapInt (.sint 4) (-2)) (.bits 8)
  obtain ⟨truth, _⟩ := width_changes_exact (ofBool true) (.bits 8)
  obtain ⟨_, zeros, _⟩ := width_changes_exact (wrapInt (.sint 4) (-2)) (.sint 8)
  obtain ⟨empty, _⟩ := width_changes_exact (zero (.uint 0)) (.sint 1)
  obtain ⟨narrow, _⟩ := width_changes_exact (wrapInt (.sint 4) (-2)) (.bits 3)
  refine ⟨?_, ?_, ?_, ?_, ?_, ?_, ?_⟩
  · obtain ⟨r, extended⟩ := byte.1.mpr (by decide)
    obtain ⟨_, reads, back⟩ := byte.2 r extended
    exact ⟨r, extended, reads, back⟩
  · obtain ⟨r, extended⟩ := truth.1.mpr (by decide)
    obtain ⟨_, reads, back⟩ := truth.2 r extended
    exact ⟨r, extended, reads, back⟩
  · obtain ⟨r, extended⟩ := zeros.1.mpr (by decide)
    obtain ⟨_, reads, back⟩ := zeros.2 r extended
    exact ⟨r, extended, reads, back⟩
  · obtain ⟨r, extended⟩ := empty.1.mpr (by decide)
    exact ⟨r, extended, (empty.2 r extended).2.1⟩
  · intro r extended
    exact absurd (narrow.1.mp ⟨r, extended⟩) (by decide)
  · exact (width_changes_exact (wrapInt (.sint 4) (-2)) .bool).2.2.2.1 (by decide)
  · exact (width_changes_exact (ofBool true) (.sint 8)).2.2.2.2 (by decide)

end Value

end MachineDescription
