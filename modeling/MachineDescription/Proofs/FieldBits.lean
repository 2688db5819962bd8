import MachineDescription.Format.Field
import MachineDescription.Proofs.BitWrites
import MachineDescription.Proofs.SlicePositions

namespace MachineDescription

namespace Value

theorem bit_of_width_le {v : Value} {index : Nat} (beyond : v.width ≤ index) :
    v.bit index = false :=
  Bits.lt_limit_iff.mp v.pattern_lt index beyond

theorem eq_of_bits {v w : Value} (type : v.ty = w.ty)
    (bits : ∀ index < v.width, v.bit index = w.bit index) : v = w := by
  refine ext type (Nat.eq_of_testBit_eq fun index => ?_)
  by_cases inside : index < v.width
  · exact bits index inside
  · have beyond : v.width ≤ index := by omega
    have same : w.width = v.width := by rw [width, width, type]
    have left := bit_of_width_le beyond
    have right := bit_of_width_le (Nat.le_trans (Nat.le_of_eq same) beyond)
    exact left.trans right.symm

/-- Cutting a number keeps the bits below the width and clears the others. -/
theorem bit_wrap (ty : DataType) (n index : Nat) :
    (wrap ty n).bit index = (decide (index < ty.width) && n.testBit index) := by
  rw [bit, pattern_wrap, Bits.limit, Nat.one_shiftLeft, Nat.testBit_mod_two_pow]

theorem retag_eq_ok_iff {v w : Value} {ty : DataType} :
    v.retag ty = .ok w ↔ v.width = ty.width ∧ w.ty = ty ∧ w.pattern = v.pattern := by
  unfold retag
  split
  · rename_i same
    constructor
    · intro made
      cases made
      exact ⟨same, rfl, rfl⟩
    · rintro ⟨_, type, bits⟩
      exact congrArg Except.ok (ext type.symm bits.symm)
  · rename_i other
    constructor
    · intro made
      cases made
    · intro spec
      exact absurd spec.1 other

end Value

namespace Field

/-- The bits of a word that a value of the field stands for: the bit `n` of the value at the
position `n` of the slice. -/
theorem mem_placed {f : Field} {v : Value} {index : Nat} {bit : Bool} :
    (index, bit) ∈ f.placed v ↔ ∃ n, f.slice.positions[n]? = some index ∧ v.bit n = bit := by
  simp only [placed, List.mem_map, Prod.exists, Prod.mk.injEq, List.mem_zipIdx_iff_getElem?]
  constructor
  · rintro ⟨position, n, found, rfl, rfl⟩
    exact ⟨n, found, rfl⟩
  · rintro ⟨n, found, rfl⟩
    exact ⟨index, n, found, rfl, rfl⟩

/-- A value has one bit at each position of the field. -/
theorem placed_unique {f : Field} {v : Value} {index : Nat} {bit other : Bool}
    (left : (index, bit) ∈ f.placed v) (right : (index, other) ∈ f.placed v) : bit = other := by
  obtain ⟨n, atN, rfl⟩ := mem_placed.mp left
  obtain ⟨m, atM, rfl⟩ := mem_placed.mp right
  obtain ⟨bound, _⟩ := List.getElem?_eq_some_iff.mp atN
  have same : n = m := (List.getElem?_inj bound f.slice.nodup_positions).mp (atN.trans atM.symm)
  rw [same]

theorem contains_of_placed {f : Field} {v : Value} {index : Nat} {bit : Bool}
    (member : (index, bit) ∈ f.placed v) : f.slice.contains index = true := by
  obtain ⟨n, found, _⟩ := mem_placed.mp member
  exact Slice.mem_positions.mp (List.mem_of_getElem? found)

theorem exists_placed {f : Field} {index : Nat} (inside : f.slice.contains index = true)
    (v : Value) : ∃ bit, (index, bit) ∈ f.placed v := by
  obtain ⟨n, found⟩ := List.mem_iff_getElem?.mp (Slice.mem_positions.mpr inside)
  exact ⟨v.bit n, mem_placed.mpr ⟨n, found, rfl⟩⟩

/-- No two bits of a value go to the same position, so each write counts. -/
theorem written?_placed {f : Field} {v : Value} {index : Nat} {bit : Bool} :
    Bits.written? (f.placed v) index = some bit ↔ (index, bit) ∈ f.placed v := by
  constructor
  · exact Bits.mem_of_written?
  · intro member
    exact Bits.written?_eq_some_of_agree member fun other also => placed_unique also member

theorem written?_placed_eq_none {f : Field} {v : Value} {index : Nat}
    (outside : ¬f.slice.contains index = true) : Bits.written? (f.placed v) index = none := by
  rw [Bits.written?_eq_none_iff]
  intro bit member
  exact outside (contains_of_placed member)

/-- The value whose bits are found at the positions of the field. -/
def gathered (f : Field) (word : Value) : Value :=
  ⟨f.ty, Bits.ofList (f.slice.positions.map word.bit), by
    have small := Bits.ofList_lt (f.slice.positions.map word.bit)
    rwa [List.length_map, Slice.length_positions, f.size_eq] at small⟩

theorem bit_gathered {f : Field} {word : Value} {n index : Nat}
    (found : f.slice.positions[n]? = some index) : (f.gathered word).bit n = word.bit index := by
  simp [Value.bit, gathered, Bits.testBit_ofList, List.getD_eq_getElem?_getD, found]

theorem extract_eq_ok {f : Field} {word : Value} (inside : f.slice.msb < word.width) :
    f.extract word = .ok (f.gathered word) := by
  have small : Bits.ofList (f.slice.positions.map word.bit) < Bits.limit f.slice.size := by
    rw [f.size_eq]
    exact (f.gathered word).pattern_lt
  have sliced : word.slice f.slice =
      .ok (Value.wrap (.bits f.slice.size) (Bits.ofList (f.slice.positions.map word.bit))) :=
    if_pos inside
  have tagged : (Value.wrap (.bits f.slice.size)
      (Bits.ofList (f.slice.positions.map word.bit))).retag f.ty = .ok (f.gathered word) :=
    Value.retag_eq_ok_iff.mpr ⟨f.size_eq, rfl, (Nat.mod_eq_of_lt small).symm⟩
  simp only [extract, sliced, bind, Except.bind, tagged]
  rfl

/-- A value is extracted from a word exactly when all its bits stand at their positions. -/
theorem extract_eq_ok_iff {f : Field} {word v : Value} (inside : f.slice.msb < word.width) :
    f.extract word = .ok v ↔
      v.ty = f.ty ∧ ∀ index bit, (index, bit) ∈ f.placed v → word.bit index = bit := by
  rw [extract_eq_ok inside]
  constructor
  · intro same
    cases same
    refine ⟨rfl, fun index bit member => ?_⟩
    obtain ⟨n, found, rfl⟩ := mem_placed.mp member
    exact (bit_gathered found).symm
  · rintro ⟨type, agree⟩
    refine congrArg Except.ok (Value.eq_of_bits type.symm fun n bound => ?_)
    have length : n < f.slice.positions.length := by
      rw [Slice.length_positions, f.size_eq]
      exact bound
    have found := List.getElem?_eq_getElem length
    rw [bit_gathered found]
    exact agree _ _ (mem_placed.mpr ⟨n, found, rfl⟩)

/-- The word with the bits of a value written at the positions of the field. -/
def scattered (f : Field) (word v : Value) : Value :=
  .wrap word.ty (Bits.putAll word.pattern (f.placed v))

theorem insert_eq_ok_iff {f : Field} {word v w : Value} :
    f.insert word v = .ok w ↔
      v.width = f.ty.width ∧ f.slice.msb < word.width ∧ w = f.scattered word v := by
  by_cases same : v.width = f.ty.width
  · have tagged : v.retag f.ty = .ok ⟨f.ty, v.pattern, same ▸ v.pattern_lt⟩ := dif_pos same
    by_cases inside : f.slice.msb < word.width
    · have made : f.insert word v = .ok (f.scattered word v) := by
        simp only [insert, tagged, bind, pure, Except.bind, Except.pure, if_pos inside]
        rfl
      rw [made]
      constructor
      · intro equal
        exact ⟨same, inside, (Except.ok.inj equal).symm⟩
      · rintro ⟨_, _, rfl⟩
        rfl
    · simp [insert, tagged, inside, bind, pure, Except.bind, Except.pure, throw, throwThe,
        MonadExceptOf.throw]
  · simp [insert, Value.retag, Value.refuse, same, bind, Except.bind, throw, throwThe,
      MonadExceptOf.throw]

/-- Inserting a value writes its bits and nothing else. -/
theorem bit_scattered {f : Field} {word v : Value} (inside : f.slice.msb < word.width)
    (index : Nat) :
    (f.scattered word v).bit index =
      (Bits.written? (f.placed v) index).getD (word.bit index) := by
  rw [scattered, Value.bit_wrap, Bits.testBit_putAll]
  by_cases within : index < word.width
  · have bound : index < word.ty.width := within
    simp [bound, Value.bit]
  · have outside : ¬f.slice.contains index = true := by
      intro member
      have := Slice.le_msb_of_contains member
      omega
    have beyond : ¬index < word.ty.width := within
    have clear := Value.bit_of_width_le (Nat.not_lt.mp within)
    simp [beyond, written?_placed_eq_none outside, clear]

end Field

end MachineDescription
