import MachineDescription.Convention.Register
import MachineDescription.Proofs.Construction
import MachineDescription.Proofs.IntegerRange
import MachineDescription.Resource.Counter

namespace MachineDescription

namespace Dimension

/-- A dimension may have fewer elements than its index type has patterns. -/
theorem size_le_limit (d : Dimension) : d.size ≤ Bits.limit d.ty.width := by
  have positive := d.size_pos
  have limit := Bits.limit_pos d.ty.width
  have fits := d.addressable
  unfold DataType.indexWidth at fits
  split at fits
  · omega
  · have last := bitLength_le_iff.mp fits
    omega

/-- Every pattern of the index type is the index of an element. -/
def IsFull (d : Dimension) : Prop :=
  d.size = Bits.limit d.ty.width

theorem eq_of_make {position size : Nat} {ty : DataType} {d : Dimension}
    (made : make position ty size = .ok d) : d.position = position ∧ d.ty = ty ∧ d.size = size := by
  unfold make at made
  split at made
  · dsimp only at made
    split at made
    · cases made
      exact ⟨rfl, rfl, rfl⟩
    · cases made
  · cases made

theorem shape_of_makeAll {first : Nat} {shape : List (DataType × Nat)} {dims : List Dimension}
    (made : makeAll first shape = .ok dims) : dims.map (fun d => (d.ty, d.size)) = shape := by
  induction shape generalizing first dims with
  | nil =>
    cases made
    rfl
  | cons entry rest ih =>
    obtain ⟨d, head, made⟩ := exists_ok_of_bind made
    obtain ⟨later, tail, made⟩ := exists_ok_of_bind made
    cases made
    obtain ⟨_, ty, size⟩ := eq_of_make head
    rw [List.map_cons, ih tail, ty, size]

end Dimension

namespace Tensor

theorem dims_of_make {name : Name} {shape : List (DataType × Nat)} {t : Tensor}
    (made : make name shape = .ok t) : Dimension.makeAll 0 shape = .ok t.dims := by
  unfold make at made
  split at made
  · cases made
  · rename_i dims all
    split at made
    · split at made
      · cases made
        exact all
      · cases made
    · cases made

theorem shape_of_make {name : Name} {shape : List (DataType × Nat)} {t : Tensor}
    (made : make name shape = .ok t) : t.dims.map (fun d => (d.ty, d.size)) = shape :=
  Dimension.shape_of_makeAll (dims_of_make made)

theorem dims_of_registerFile {name : Name} {address ty : DataType} {t : Tensor}
    (made : registerFile name address ty = .ok t) :
    ∃ outer inner, t.dims = [outer, inner] ∧ outer.ty = address ∧
      outer.size = Bits.limit address.width ∧ inner.size = ty.width := by
  unfold registerFile at made
  split at made
  · obtain ⟨outer, rest, dims, atOuter, atRest⟩ := List.map_eq_cons_iff.mp (shape_of_make made)
    obtain ⟨inner, none, rfl, atInner, atEnd⟩ := List.map_eq_cons_iff.mp atRest
    cases List.map_eq_nil_iff.mp atEnd
    obtain ⟨outerTy, outerSize⟩ := Prod.mk.inj atOuter
    exact ⟨outer, inner, dims, outerTy, outerSize, (Prod.mk.inj atInner).2⟩
  · cases made

/-- A file made from an address type has a register for each of its patterns. -/
theorem isFull_of_registerFile {name : Name} {address ty : DataType} {t : Tensor}
    (made : registerFile name address ty = .ok t) : t.isFile = true ∧ t.outermost.IsFull := by
  obtain ⟨outer, inner, dims, outerTy, outerSize, _⟩ := dims_of_registerFile made
  have outermost : t.outermost = outer := by simp [Tensor.outermost, dims]
  refine ⟨by rw [isFile, dims]; rfl, ?_⟩
  rw [outermost, Dimension.IsFull, outerTy, outerSize]

/-- There is never an index for the innermost dimension. -/
theorem length_le_of_checkIndexTypes {t : Tensor} {types : List DataType}
    (accepted : t.checkIndexTypes types = .ok ()) : types.length ≤ t.maxIndices := by
  unfold checkIndexTypes at accepted
  split at accepted
  · cases accepted
  · omega

/-- The indices of a constraint stand at dimensions before the innermost one, and each names an
element there. -/
theorem exists_dimension_of_checkConstraint {t : Tensor} {c : Constraint}
    (accepted : t.checkConstraint c = .ok ()) {place : Nat} {index : Value}
    (given : c.indices[place]? = some index) :
    ∃ d, t.indexDims[place]? = some d ∧ index.pattern < d.size := by
  obtain ⟨_, types, accepted⟩ := exists_ok_of_bind accepted
  have few := length_le_of_checkIndexTypes types
  rw [List.length_map] at few
  obtain ⟨inside, _⟩ := List.getElem?_eq_some_iff.mp given
  have addressed : place < t.maxIndices := Nat.lt_of_lt_of_le inside few
  have bound : place < t.dims.length := by
    unfold maxIndices at addressed
    omega
  have dimension : t.dims[place]? = some t.dims[place] := List.getElem?_eq_getElem bound
  refine ⟨t.dims[place], ?_, ?_⟩
  · rw [indexDims, List.getElem?_take_of_lt addressed, dimension]
  · split at accepted
    · cases accepted
    · rename_i unfound
      have paired : (index, t.dims[place]) ∈ c.indices.zip t.dims :=
        List.mem_of_getElem? (List.getElem?_zip_eq_some.mpr ⟨given, dimension⟩)
      simpa using List.find?_eq_none.mp unfound _ paired

theorem checkConstraint_of_forM {t : Tensor} {constraints : List Constraint}
    (accepted : constraints.forM t.checkConstraint = .ok ()) :
    ∀ c ∈ constraints, t.checkConstraint c = .ok () := by
  induction constraints with
  | nil => exact fun _ member => nomatch member
  | cons c rest ih =>
    obtain ⟨_, head, tail⟩ := exists_ok_of_bind accepted
    intro other member
    rcases List.mem_cons.mp member with rfl | later
    · exact head
    · exact ih tail other later

theorem withConstraints_eq_ok {t after : Tensor} {constraints : List Constraint}
    (made : t.withConstraints constraints = .ok after) :
    (∀ c ∈ constraints, t.checkConstraint c = .ok ()) ∧ after = { t with constraints } := by
  obtain ⟨_, accepted, made⟩ := exists_ok_of_bind made
  cases made
  exact ⟨checkConstraint_of_forM accepted, rfl⟩

end Tensor

namespace Register

/-- A register is refused if its index names no element. -/
theorem make_eq_ok {file : Declared Tensor} {index : Nat} {alignment : Alignment} {r : Register}
    (made : make file index alignment = .ok r) :
    index < file.item.outermost.size ∧ r.file = file ∧ r.index = index := by
  unfold make at made
  split at made
  · split at made
    · rename_i inside
      cases made
      exact ⟨inside, rfl, rfl⟩
    · cases made
  · cases made

end Register

namespace Counter

/-- The index of a counter is only checked for its width. -/
theorem inElement_eq_ok_iff {name : Name} {file : Declared Tensor} {index : Value}
    {position : CounterPosition} {kind : CounterKind} {c : Counter} :
    inElement name file index position kind = .ok c ↔
      file.item.isFile = true ∧ index.width = file.item.outermost.ty.width ∧
        c = ⟨name, kind, position, .element file index⟩ := by
  rw [← DataType.sameWidth_iff]
  unfold inElement
  split
  · rename_i isFile
    split
    · rename_i same
      simp [isFile, same, eq_comm]
    · rename_i different
      simp [different]
  · rename_i other
    simp [other]

/-- The indices that counters may have in a file all name elements exactly if the file is full. -/
theorem inElement_inside_iff {file : Declared Tensor} (isFile : file.item.isFile = true)
    (name : Name) (position : CounterPosition) (kind : CounterKind) :
    (∀ index c, inElement name file index position kind = .ok c →
      index.pattern < file.item.outermost.size) ↔ file.item.outermost.IsFull := by
  have most := file.item.outermost.size_le_limit
  constructor
  · intro inside
    -- The greatest pattern of the address is accepted, so it has to be an index.
    let greatest := Value.maximum (.bits file.item.outermost.ty.width)
    have width : greatest.width = file.item.outermost.ty.width := by
      rw [Value.width, Value.ty_maximum, DataType.width]
    have last := inside greatest _ (inElement_eq_ok_iff.mpr ⟨isFile, width, rfl⟩)
    have pattern : greatest.pattern = Bits.limit file.item.outermost.ty.width - 1 :=
      Value.pattern_maximum _
    have positive := Bits.limit_pos file.item.outermost.ty.width
    unfold Dimension.IsFull
    omega
  · intro full index c accepted
    obtain ⟨_, width, _⟩ := inElement_eq_ok_iff.mp accepted
    rw [full, ← width]
    exact index.pattern_lt

end Counter

namespace Tensor

/-- Whatever shape the storage has, a register and each index of a constraint name an element of the
dimension that they address. The index of a counter is accepted exactly if it has the width of the
address, so in a file all of them name elements if and only if every pattern of the address does. A
file made from an address type is of this kind. -/
theorem accepted_elements_exist (file : Declared Tensor) :
    (∀ index alignment r, Register.make file index alignment = .ok r →
      r.file = file ∧ r.index = index ∧ index < file.item.outermost.size) ∧
      (∀ constraints t, file.item.withConstraints constraints = .ok t →
        t.constraints = constraints ∧ t.dims = file.item.dims ∧
          ∀ c ∈ constraints, ∀ (place : Nat) (index : Value), c.indices[place]? = some index →
            ∃ d : Dimension, t.indexDims[place]? = some d ∧ index.pattern < d.size) ∧
      (∀ name index position kind,
        (∃ c, Counter.inElement name file index position kind = .ok c) ↔
          file.item.isFile = true ∧ index.width = file.item.outermost.ty.width) ∧
      (file.item.isFile = true → ∀ name position kind,
        (∀ index c, Counter.inElement name file index position kind = .ok c →
          index.pattern < file.item.outermost.size) ↔ file.item.outermost.IsFull) ∧
      ∀ name address ty, registerFile name address ty = .ok file.item →
        file.item.isFile = true ∧ file.item.outermost.IsFull := by
  refine ⟨fun index alignment r made => ?_, fun constraints t made => ?_,
    fun name index position kind => ?_, Counter.inElement_inside_iff,
    fun _ _ _ => isFull_of_registerFile⟩
  · obtain ⟨inside, sameFile, sameIndex⟩ := Register.make_eq_ok made
    exact ⟨sameFile, sameIndex, inside⟩
  · obtain ⟨accepted, rfl⟩ := withConstraints_eq_ok made
    exact ⟨rfl, rfl, fun c member place index given =>
      exists_dimension_of_checkConstraint (accepted c member) given⟩
  · simp only [Counter.inElement_eq_ok_iff, exists_and_left, exists_eq, and_true]

/-- A file of twenty registers under an address of five bits. -/
def twentyRegisters : Except Error Tensor :=
  make (.ofParts ["X"]) [(.bits 5, 20), (.bits 5, 32)]

theorem accepted_elements_exist_twenty :
    ∃ file, twentyRegisters = .ok file ∧
      (∃ r, Register.make ⟨0, file⟩ 19 .none = .ok r ∧ r.index < file.outermost.size) ∧
      ∃ t, file.withConstraints [⟨[.wrap (.uint 5) 19], .zero (.bits 32)⟩] = .ok t ∧
        ∃ d : Dimension, t.indexDims[0]? = some d ∧ (Value.wrap (.uint 5) 19).pattern < d.size := by
  obtain ⟨file, made, r, accepted, t, pinned⟩ :
      ∃ file, twentyRegisters = .ok file ∧ ∃ r, Register.make ⟨0, file⟩ 19 .none = .ok r ∧
        ∃ t, file.withConstraints [⟨[.wrap (.uint 5) 19], .zero (.bits 32)⟩] = .ok t :=
    ⟨_, rfl, _, rfl, _, rfl⟩
  obtain ⟨registers, constraints, _⟩ := accepted_elements_exist ⟨0, file⟩
  obtain ⟨_, same, inside⟩ := registers 19 .none r accepted
  obtain ⟨_, _, named⟩ := constraints _ t pinned
  exact ⟨file, made, ⟨r, accepted, same.symm ▸ inside⟩, t, pinned,
    named _ List.mem_cons_self 0 _ rfl⟩

/-- A counter lives in register 25 of the twenty; a register and a constraint are refused there. -/
theorem counter_beyond_file :
    ∃ file, twentyRegisters = .ok file ∧
      (∃ c, Counter.inElement (.ofParts ["PC"]) ⟨0, file⟩ (.wrap (.bits 5) 25) .current .program =
        .ok c ∧ c.index? = some (.wrap (.bits 5) 25)) ∧
      ¬(Value.wrap (.bits 5) 25).pattern < file.outermost.size ∧
      (Register.make ⟨0, file⟩ 25 .none).toOption.isNone = true ∧
      (file.withConstraints [⟨[.wrap (.bits 5) 25], .zero (.bits 32)⟩]).toOption.isNone = true :=
  ⟨_, rfl, ⟨_, rfl, rfl⟩, by decide, rfl, rfl⟩

end Tensor

end MachineDescription
