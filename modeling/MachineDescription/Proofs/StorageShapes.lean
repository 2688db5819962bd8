import MachineDescription.Proofs.ResultTypes

namespace MachineDescription

namespace DataType

/-- The index of the bits of an element has just the width that is needed, and at least one bit. -/
theorem indexWidth_le_iff {n width : Nat} :
    indexWidth n ≤ width ↔ 0 < width ∧ n < Bits.limit width := by
  unfold indexWidth
  split
  · rename_i zero
    rw [zero]
    exact (and_iff_left (Bits.limit_pos width)).symm
  · rename_i positive
    rw [bitLength_le_iff]
    refine (and_iff_right_of_imp fun below => Nat.pos_of_ne_zero fun empty => ?_).symm
    rw [empty, Bits.limit_zero] at below
    omega

/-- Every element has an index of the type, and there are elements. -/
def Addresses (ty : DataType) (size : Nat) : Prop :=
  1 ≤ size ∧ 1 ≤ ty.width ∧ size ≤ Bits.limit ty.width

theorem addresses_limit_iff {ty : DataType} :
    ty.Addresses (Bits.limit ty.width) ↔ 1 ≤ ty.width := by
  have patterns := Bits.limit_pos ty.width
  exact ⟨fun valid => valid.2.1, fun wide => ⟨patterns, wide, Nat.le_refl _⟩⟩

end DataType

namespace Dimension

/-- Elements of a dimension are addressed by the patterns of its index type, so there are at least
one and at most as many as patterns. -/
theorem exists_make_iff {position size : Nat} {ty : DataType} :
    (∃ d, make position ty size = .ok d) ↔ ty.Addresses size := by
  unfold make DataType.Addresses
  by_cases positive : 0 < size
  · have last : size - 1 < Bits.limit ty.width ↔ size ≤ Bits.limit ty.width := by omega
    rw [dif_pos positive, and_iff_right (Nat.one_le_iff_ne_zero.mpr (by omega)), ← last]
    by_cases fits : DataType.indexWidth (size - 1) ≤ ty.width
    · rw [dif_pos fits]
      exact iff_of_true ⟨_, rfl⟩ (DataType.indexWidth_le_iff.mp fits)
    · rw [dif_neg fits]
      exact iff_of_false nofun fun valid => fits (DataType.indexWidth_le_iff.mpr valid)
  · rw [dif_neg positive]
    exact iff_of_false nofun fun valid => positive valid.1

theorem exists_makeAll_iff (first : Nat) {shape : List (DataType × Nat)} :
    (∃ dims, makeAll first shape = .ok dims) ↔ ∀ entry ∈ shape, entry.1.Addresses entry.2 := by
  induction shape generalizing first with
  | nil => exact iff_of_true ⟨[], rfl⟩ nofun
  | cons entry rest ih =>
    rw [List.forall_mem_cons, ← ih (first + 1), ← exists_make_iff]
    constructor
    · rintro ⟨dims, made⟩
      obtain ⟨d, head, made⟩ := exists_ok_of_bind made
      obtain ⟨later, tail, _⟩ := exists_ok_of_bind made
      exact ⟨⟨d, head⟩, later, tail⟩
    · rintro ⟨⟨d, head⟩, later, tail⟩
      refine ⟨d :: later, ?_⟩
      rw [makeAll, head]
      change (makeAll (first + 1) rest >>= _) = _
      rw [tail]
      rfl

end Dimension

namespace Tensor

/-- The innermost dimension also has to be a width of a type. -/
theorem exists_make_iff {name : Name} (outer : List (DataType × Nat)) (element : DataType × Nat) :
    (∃ t, make name (outer ++ [element]) = .ok t) ↔
      (∀ entry ∈ outer ++ [element], entry.1.Addresses entry.2) ∧ element.2 < Bits.limit 32 := by
  have innermost : ∀ {dims : List Dimension} (nonempty : dims ≠ []),
      dims.map (fun d => (d.ty, d.size)) = outer ++ [element] →
        (dims.getLast nonempty).size = element.2 := by
    intro dims nonempty shape
    have last := congrArg List.getLast? shape
    rw [List.getLast?_map, List.getLast?_eq_some_getLast nonempty, List.getLast?_concat] at last
    exact congrArg Prod.snd (Option.some.inj last)
  rw [← Dimension.exists_makeAll_iff 0]
  constructor
  · rintro ⟨t, made⟩
    exact ⟨⟨t.dims, dims_of_make made⟩, innermost t.nonempty (shape_of_make made) ▸ t.element_lt⟩
  · rintro ⟨⟨dims, made⟩, narrow⟩
    have shape := Dimension.shape_of_makeAll made
    have nonempty : dims ≠ [] := by
      rintro rfl
      exact List.append_ne_nil_of_right_ne_nil outer (List.cons_ne_nil element []) shape.symm
    have fits : (dims.getLast nonempty).size < Bits.limit 32 := innermost nonempty shape ▸ narrow
    refine ⟨⟨name, dims, nonempty, fits, []⟩, ?_⟩
    rw [make, made]
    exact (dif_pos nonempty).trans (dif_pos fits)

/-- The index type that the bits of an element get is always wide enough. -/
theorem addresses_elementShape_iff {ty : DataType} :
    (elementShape ty).1.Addresses (elementShape ty).2 ↔ 1 ≤ ty.width := by
  obtain ⟨wide, last⟩ := DataType.indexWidth_le_iff.mp
    (Nat.le_refl (DataType.indexWidth (ty.width - 1)))
  refine ⟨fun valid => valid.1, fun positive => ⟨positive, wide, ?_⟩⟩
  change ty.width ≤ Bits.limit (DataType.indexWidth (ty.width - 1))
  omega

theorem exists_register_iff {name : Name} {ty : DataType} :
    (∃ t, register name ty = .ok t) ↔ 1 ≤ ty.width ∧ ty.width < Bits.limit 32 := by
  refine (exists_make_iff [] (elementShape ty)).trans (and_congr_left fun _ => ?_)
  rw [List.nil_append, List.forall_mem_singleton, addresses_elementShape_iff]

/-- A file has an element for each pattern of the address, as long as their number fits 64 bits. -/
theorem exists_registerFile_iff {name : Name} {address ty : DataType} :
    (∃ t, registerFile name address ty = .ok t) ↔
      (1 ≤ address.width ∧ address.width ≤ 63) ∧ 1 ≤ ty.width ∧ ty.width < Bits.limit 32 := by
  unfold registerFile
  by_cases short : address.width < 64
  · have most : address.width ≤ 63 := Nat.le_of_lt_succ short
    rw [if_pos short, and_iff_left most, ← and_assoc]
    refine (exists_make_iff [(address, Bits.limit address.width)] (elementShape ty)).trans
      (and_congr_left fun _ => ?_)
    rw [List.singleton_append, List.forall_mem_cons, List.forall_mem_singleton,
      addresses_elementShape_iff]
    exact and_congr_left fun _ => DataType.addresses_limit_iff
  · rw [if_neg short]
    exact iff_of_false nofun fun valid => short (Nat.lt_succ_of_le valid.1.2)

theorem dims_of_register {name : Name} {ty : DataType} {t : Tensor}
    (made : register name ty = .ok t) : ∃ d, t.dims = [d] ∧ d.size = ty.width := by
  obtain ⟨d, none, dims, atElement, atEnd⟩ := List.map_eq_cons_iff.mp (shape_of_make made)
  cases List.map_eq_nil_iff.mp atEnd
  exact ⟨d, dims, (Prod.mk.inj atElement).2⟩

/-- A dimension is made exactly if there are elements and each has an index of the type. So an
address of 1 to 63 bits makes a file of registers of any width, with a register at every pattern of
the address, and every width makes a single register, which needs no address. The width of a
register is positive, and no width is beyond 32 bits. -/
theorem storage_of_types (name : Name) (position size : Nat) (address ty : DataType) :
    ((∃ d, Dimension.make position address size = .ok d) ↔
      1 ≤ size ∧ 1 ≤ address.width ∧ size ≤ Bits.limit address.width) ∧
    ((∃ t, registerFile name address ty = .ok t) ↔
      (1 ≤ address.width ∧ address.width ≤ 63) ∧ 1 ≤ ty.width ∧ ty.width < Bits.limit 32) ∧
    (∀ t, registerFile name address ty = .ok t →
      t.outermost.size = Bits.limit address.width ∧
      (∀ v : Value, v.ty = address → ∀ serial alignment,
        ∃ r, Register.make ⟨serial, t⟩ v.pattern alignment = .ok r) ∧
      t.relation = ⟨[address], .bits ty.width⟩ ∧ t.resultTypeFor 1 = .ok (.bits ty.width)) ∧
    ((∃ t, register name ty = .ok t) ↔ 1 ≤ ty.width ∧ ty.width < Bits.limit 32) ∧
    ∀ t, register name ty = .ok t →
      t.resultType = .bits ty.width ∧ t.hasAddress = false ∧ t.addressType? = none := by
  refine ⟨Dimension.exists_make_iff, exists_registerFile_iff, fun t made => ?_,
    exists_register_iff, fun t made => ?_⟩
  · obtain ⟨outer, inner, dims, outerTy, outerSize, innerSize⟩ := dims_of_registerFile made
    have outermost : t.outermost.size = Bits.limit address.width := by
      simp [Tensor.outermost, dims, outerSize]
    have element : t.resultType = .bits ty.width := by
      simp [resultType, innermost, dims, innerSize]
    have indices : t.indexTypes = [address] := by
      simp [indexTypes, indexDims, maxIndices, dims, outerTy]
    refine ⟨outermost, fun v typed serial alignment => ?_, ?_, ?_⟩
    · have inside : v.pattern < t.outermost.size := by
        rw [outermost, ← typed]
        exact v.pattern_lt
      have file := (isFull_of_registerFile made).1
      exact ⟨_, (dif_pos file).trans (dif_pos inside)⟩
    · rw [relation, indices, element]
    · have last := t.resultTypeFor_innermost
      rwa [dims, element] at last
  · obtain ⟨d, dims, size⟩ := dims_of_register made
    have single : t.hasAddress = false := by simp [hasAddress, dims]
    refine ⟨by simp [resultType, innermost, dims, size], single, ?_⟩
    rw [addressType?, single]
    rfl

/-- The widest address that makes a file, and its last register. One bit more or none is refused. -/
theorem storage_of_types_edges :
    (∃ t, registerFile (.ofParts ["X"]) (.uint 63) .bool = .ok t ∧
      t.outermost.size = Bits.limit 63 ∧ t.relation = ⟨[.uint 63], .bits 1⟩ ∧
      ∃ r, Register.make ⟨0, t⟩ (Value.maximum (.uint 63)).pattern .word = .ok r) ∧
    (∀ width ∈ [0, 64], ¬∃ t, registerFile (.ofParts ["X"]) (.bits width) .bool = .ok t) ∧
    ∃ t, register (.ofParts ["PC"]) (.sint 33) = .ok t ∧ t.resultType = .bits 33 ∧
      t.addressType? = none := by
  obtain ⟨_, files, file, _⟩ := storage_of_types (.ofParts ["X"]) 0 0 (.uint 63) .bool
  obtain ⟨t, made⟩ := files.mpr (by decide)
  obtain ⟨outermost, registers, relation, _⟩ := file t made
  obtain ⟨_, _, _, singles, single⟩ := storage_of_types (.ofParts ["PC"]) 0 0 .bool (.sint 33)
  obtain ⟨counter, madeCounter⟩ := singles.mpr (by decide)
  obtain ⟨element, _, address⟩ := single counter madeCounter
  refine ⟨⟨t, made, outermost, relation, registers _ (Value.ty_maximum _) 0 .word⟩,
    fun width listed accepted => ?_, counter, madeCounter, element, address⟩
  obtain ⟨⟨positive, short⟩, _⟩ :=
    (storage_of_types (.ofParts ["X"]) 0 0 (.bits width) .bool).2.1.mp accepted
  simp only [DataType.width, List.mem_cons, List.not_mem_nil, or_false] at positive short listed
  omega

end Tensor

end MachineDescription
