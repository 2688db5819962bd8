import MachineDescription.Proofs.DisjointFields

namespace MachineDescription

namespace Format

theorem mem_uncovered {f : Format} {index : Nat} :
    index ∈ f.uncovered ↔
      index < f.width ∧ ∀ m ∈ f.fields, ¬m.item.slice.contains index = true := by
  simp [uncovered]

/-- Two words of a format are equal when all fields and all bits outside of them are. -/
theorem eq_of_fields {f : Format} {v w : Value} (left : v.ty = .bits f.width)
    (right : w.ty = .bits f.width)
    (fields : ∀ m ∈ f.fields, m.item.extract v = m.item.extract w)
    (outside : ∀ index ∈ f.uncovered, v.bit index = w.bit index) : v = w := by
  have leftWidth : v.width = f.width := by rw [Value.width, left]; rfl
  have rightWidth : w.width = f.width := by rw [Value.width, right]; rfl
  refine Value.eq_of_bits (left.trans right.symm) fun index bound => ?_
  by_cases covered : ∃ m ∈ f.fields, m.item.slice.contains index = true
  · obtain ⟨m, member, covers⟩ := covered
    have inside := f.within m member
    have same := fields m member
    rw [Field.extract_eq_ok (by omega), Field.extract_eq_ok (by omega)] at same
    obtain ⟨n, found⟩ := List.mem_iff_getElem?.mp (Slice.mem_positions.mpr covers)
    rw [← Field.bit_gathered found, ← Field.bit_gathered found, Except.ok.inj same]
  · refine outside index (mem_uncovered.mpr ⟨by omega, fun m member covers => ?_⟩)
    exact covered ⟨m, member, covers⟩

theorem eq_of_label {f : Format} {m n : Labelled Field} (left : m ∈ f.fields)
    (right : n ∈ f.fields) (same : m.label = n.label) : m = n :=
  List.inj_on_of_nodup_map (List.nodup_append.mp f.distinct).1 left right same

/-- Every field is found under the last part of its own name. -/
def Resolves (f : Format) : Prop :=
  ∀ m ∈ f.fields, f.field? m.item.name.simple = some m.item

/-- A field that is found under its name and overlaps no other has that name as its label. -/
theorem Resolves.label_eq {f : Format} (resolves : f.Resolves) (none : f.overlapping = [])
    {m : Labelled Field} (member : m ∈ f.fields) : m.label = m.item.name.simple := by
  obtain ⟨n, found, item⟩ := Option.map_eq_some_iff.mp (resolves m member)
  obtain ⟨inside, label⟩ := Labelled.find?_eq_some found
  -- A field overlaps itself, so it cannot have been declared under a second label.
  have same : n = m := by
    by_contra different
    have apart := apart_of_ne none inside member different
    obtain ⟨index, covers⟩ := m.item.slice.exists_contains
    rw [item, Slice.overlaps_iff.mpr ⟨index, covers, covers⟩] at apart
    cases apart
  rw [← label, same]

end Format

namespace Encoding

theorem bound_or_operand (e : Encoding) {m : Labelled Field}
    (member : m ∈ e.format.item.fields) :
    (∃ b ∈ e.bindings, b.field = m.item) ∨ m.item ∈ e.operands := by
  cases found : e.binding? m.label with
  | none => exact Or.inr (mem_operands.mpr ⟨m, member, found, rfl⟩)
  | some b =>
    have bound : b ∈ e.bindings := List.mem_of_find?_eq_some found
    have label : b.label = m.label := by simpa using List.find?_some found
    have same := Format.eq_of_label (e.known b bound) member label
    exact Or.inl ⟨b, bound, congrArg Labelled.item same⟩

theorem msb_lt_width_of_operand {e : Encoding} {f : Field} (operand : f ∈ e.operands) :
    f.slice.msb < e.format.item.width := by
  obtain ⟨m, member, _, rfl⟩ := mem_operands.mp operand
  exact e.format.item.within m member

/-- Assembling leaves zeros outside of the fields. -/
theorem bit_uncovered {e : Encoding} {operands : List (String × Value)} {word : Value}
    (assembled : e.assemble operands = .ok word) {index : Nat}
    (outside : index ∈ e.format.item.uncovered) : word.bit index = false := by
  obtain ⟨_, clear⟩ := Format.mem_uncovered.mp outside
  have noOperand : Bits.written? (e.operandBits operands) index = none := by
    refine Bits.written?_eq_none_iff.mpr fun bit written => ?_
    obtain ⟨f, operand, v, _, placed⟩ := mem_operandBits.mp written
    obtain ⟨m, member, _, rfl⟩ := mem_operands.mp operand
    exact clear m member (Field.contains_of_placed placed)
  have noConstant : Bits.written? e.constantBits index = none := by
    refine Bits.written?_eq_none_iff.mpr fun bit written => ?_
    obtain ⟨b, bound, placed⟩ := mem_constantBits.mp written
    exact clear _ (e.known b bound) (Field.contains_of_placed placed)
  rw [(assemble_spec assembled).2.2, noOperand, noConstant]
  rfl

/-- The operands that a word holds, under the names of their fields. -/
def readOperands (e : Encoding) (word : Value) : Except Error (List (String × Value)) :=
  e.operands.mapM fun f => do return (f.name.simple, ← f.extract word)

theorem readOperands_eq_ok {e : Encoding} {word : Value}
    (width : word.width = e.format.item.width) :
    e.readOperands word = .ok (e.operands.map fun f => (f.name.simple, f.gathered word)) := by
  have inside : ∀ f ∈ e.operands, f.slice.msb < word.width :=
    fun f operand => width ▸ msb_lt_width_of_operand operand
  unfold readOperands
  generalize e.operands = fields at inside
  induction fields with
  | nil => rfl
  | cons f rest ih =>
    have first := Field.extract_eq_ok (inside f List.mem_cons_self)
    have later := ih fun g member => inside g (List.mem_cons_of_mem _ member)
    rw [List.mapM_cons, first, later]
    rfl

theorem exists_insertOperands (e : Encoding) {operands : List (String × Value)}
    {fields : List Field} {start : Value} (inside : ∀ f ∈ fields, f.slice.msb < start.width)
    (supplied : ∀ f ∈ fields, ∃ v, operands.lookup f.name.simple = some v ∧ v.width = f.ty.width) :
    ∃ word, e.insertOperands operands fields start = .ok word := by
  induction fields generalizing start with
  | nil => exact ⟨start, rfl⟩
  | cons f rest ih =>
    obtain ⟨v, found, width⟩ := supplied f List.mem_cons_self
    have inserted : f.insert start v = .ok (f.scattered start v) :=
      Field.insert_eq_ok_iff.mpr ⟨width, inside f List.mem_cons_self, rfl⟩
    have inside' : ∀ g ∈ rest, g.slice.msb < (f.scattered start v).width :=
      fun g member => inside g (List.mem_cons_of_mem _ member)
    obtain ⟨word, later⟩ := ih inside' fun g member => supplied g (List.mem_cons_of_mem _ member)
    refine ⟨word, ?_⟩
    rw [insertOperands, found]
    simp only [inserted]
    exact later

/-- Assembling succeeds when only operand fields are named and each of them gets a value of its
width. -/
theorem exists_assemble {e : Encoding} {operands : List (String × Value)}
    (known : ∀ operand ∈ operands, e.isOperand operand.1 = true)
    (supplied : ∀ f ∈ e.operands, ∃ v, operands.lookup f.name.simple = some v ∧
      v.width = f.ty.width) : ∃ word, e.assemble operands = .ok word := by
  have inside : ∀ f ∈ e.operands, f.slice.msb < e.pattern.value.width :=
    fun f operand => lt_of_lt_of_eq (msb_lt_width_of_operand operand) e.width_pattern.symm
  obtain ⟨word, inserted⟩ := e.exists_insertOperands inside supplied
  have accepted : operands.find? (fun operand => !e.isOperand operand.1) = none := by
    refine List.find?_eq_none.mpr fun operand member => ?_
    simp [known operand member]
  refine ⟨word, ?_⟩
  rw [assemble, accepted]
  exact inserted

theorem isOperand_of_resolves {e : Encoding} (none : e.format.item.overlapping = [])
    (resolves : e.format.item.Resolves) {f : Field} (operand : f ∈ e.operands) :
    e.isOperand f.name.simple = true := by
  obtain ⟨m, member, free, rfl⟩ := mem_operands.mp operand
  rw [resolves.label_eq none member] at free
  simp [isOperand, resolves m member, free]

/-- Fields that are found under their names have different names, so no operand hides another. -/
theorem lookup_of_resolves {e : Encoding} (resolves : e.format.item.Resolves) {f : Field}
    (operand : f ∈ e.operands) (read : Field → Value) :
    (e.operands.map fun g => (g.name.simple, read g)).lookup f.name.simple = some (read f) := by
  have unique : ∀ g ∈ e.operands, g.name.simple = f.name.simple → g = f := by
    intro g operand' same
    obtain ⟨m, member, _, rfl⟩ := mem_operands.mp operand
    obtain ⟨n, member', _, rfl⟩ := mem_operands.mp operand'
    have found := resolves n member'
    rw [same, resolves m member] at found
    exact (Option.some.inj found).symm
  generalize e.operands = fields at operand unique
  induction fields with
  | nil => cases operand
  | cons g rest ih =>
    rw [List.map_cons, List.lookup_cons]
    by_cases same : f.name.simple = g.name.simple
    · rw [unique g List.mem_cons_self same.symm]
      simp
    · have later : f ∈ rest := by
        rcases List.mem_cons.mp operand with rfl | later
        · exact absurd rfl same
        · exact later
      rw [beq_false_of_ne same]
      exact ih later fun h member => unique h (List.mem_cons_of_mem _ member)

/-- A word that the encoding accepts is assembled from the operands that are read out of it. -/
theorem assemble_gathered {e : Encoding} (none : e.format.item.overlapping = [])
    (resolves : e.format.item.Resolves) {word : Value}
    (type : word.ty = .bits e.format.item.width) (accepted : e.pattern.accepts word = true)
    (clear : ∀ index ∈ e.format.item.uncovered, word.bit index = false) :
    e.assemble (e.operands.map fun f => (f.name.simple, f.gathered word)) = .ok word := by
  have width : word.width = e.format.item.width := by rw [Value.width, type]; rfl
  have known : ∀ operand ∈ e.operands.map fun f => (f.name.simple, f.gathered word),
      e.isOperand operand.1 = true := by
    intro operand member
    obtain ⟨f, inOperands, rfl⟩ := List.mem_map.mp member
    exact isOperand_of_resolves none resolves inOperands
  obtain ⟨other, assembled⟩ := exists_assemble known fun f operand =>
    ⟨f.gathered word, lookup_of_resolves resolves operand _, rfl⟩
  -- The two words hold the same constants, the same operands and zeros elsewhere.
  have sameFields : ∀ m ∈ e.format.item.fields, m.item.extract other = m.item.extract word := by
    intro m member
    rcases e.bound_or_operand member with ⟨b, bound, field⟩ | operand
    · have constants := (accepts_iff_extract (width_assembled assembled)).mp
        (accepts_assembled none assembled)
      rw [← field, constants b bound, (accepts_iff_extract width).mp accepted b bound]
    · obtain ⟨v, r, found, tagged, read⟩ := extract_assembled none assembled operand
      rw [lookup_of_resolves resolves operand] at found
      cases found
      obtain ⟨_, type', bits⟩ := Value.retag_eq_ok_iff.mp tagged
      rw [read, Field.extract_eq_ok (width ▸ msb_lt_width_of_operand operand)]
      exact congrArg Except.ok (Value.ext type' bits)
  have sameOutside : ∀ index ∈ e.format.item.uncovered, other.bit index = word.bit index := by
    intro index outside
    rw [bit_uncovered assembled outside, clear index outside]
  rw [assembled, Format.eq_of_fields (assemble_spec assembled).1 type sameFields sameOutside]

/-- Without overlapping fields, an assembled word has the type of a word, the constants, the first
operand given for each field that is left, and zeros at all other bits. Conversely every such word
is assembled from the operands that are read out of it, if each field is found under its name. -/
theorem assemble_roundTrip (e : Encoding) (none : e.format.item.overlapping = []) :
    (∀ operands word, e.assemble operands = .ok word →
      word.ty = .bits e.format.item.width ∧ e.pattern.accepts word = true ∧
        (∀ b ∈ e.bindings, b.field.extract word = .ok b.value) ∧
        (∀ f ∈ e.operands, ∃ v r, operands.lookup f.name.simple = some v ∧
          v.retag f.ty = .ok r ∧ f.extract word = .ok r) ∧
        ∀ index ∈ e.format.item.uncovered, word.bit index = false) ∧
      ∀ word : Value, word.ty = .bits e.format.item.width → e.pattern.accepts word = true →
        (∀ index ∈ e.format.item.uncovered, word.bit index = false) →
        e.format.item.Resolves →
        ∃ operands, e.readOperands word = .ok operands ∧ e.assemble operands = .ok word := by
  constructor
  · intro operands word assembled
    have accepted := accepts_assembled none assembled
    refine ⟨(assemble_spec assembled).1, accepted, ?_, ?_, ?_⟩
    · exact (accepts_iff_extract (width_assembled assembled)).mp accepted
    · intro f operand
      exact extract_assembled none assembled operand
    · intro index outside
      exact bit_uncovered assembled outside
  · intro word type accepted clear resolves
    have width : word.width = e.format.item.width := by rw [Value.width, type]; rfl
    exact ⟨_, readOperands_eq_ok width, assemble_gathered none resolves type accepted clear⟩

end Encoding

/-- Bit 0 above bits 5 and 4. -/
def Slice.split : Slice where
  ranges := [.single 0, ⟨5, 4, by decide⟩]
  nonempty := by decide
  apart := by decide
  maximal := ⟨by decide, trivial⟩
  bounded := by decide

/-- A byte with an operand in two pieces; bits 3 to 1 belong to no field. -/
def Format.gapped : Format :=
  built (.ofParts ["Gapped"]) 8 [.bits "op" 7 6, .field "imm" .split (.sint 3)]

def Encoding.loadImmediate : Encoding :=
  built (.ofParts ["LI", "encoding"]) ⟨0, .gapped⟩ [.integer "op" 0b10]

theorem Encoding.assemble_roundTrip_loadImmediate :
    loadImmediate.assemble [("imm", .wrap (.bits 3) 0b101)] = .ok (.wrap (.bits 8) 0b10010001) ∧
      loadImmediate.format.item.uncovered = [1, 2, 3] ∧
      (∀ b ∈ loadImmediate.bindings,
        b.field.extract (.wrap (.bits 8) 0b10010001) = .ok b.value) ∧
      (∀ index ∈ loadImmediate.format.item.uncovered,
        (Value.wrap (.bits 8) 0b10010001).bit index = false) ∧
      ∃ operands, loadImmediate.readOperands (.wrap (.bits 8) 0b10110000) = .ok operands ∧
        loadImmediate.assemble operands = .ok (.wrap (.bits 8) 0b10110000) := by
  have law := assemble_roundTrip loadImmediate rfl
  have assembled : loadImmediate.assemble [("imm", .wrap (.bits 3) 0b101)] =
      .ok (.wrap (.bits 8) 0b10010001) := rfl
  obtain ⟨_, _, constants, _, clear⟩ := law.1 _ _ assembled
  refine ⟨assembled, rfl, constants, clear, law.2 _ rfl rfl (by decide) ?_⟩
  intro m member
  rcases List.mem_cons.mp member with rfl | member
  · rfl
  · cases List.mem_singleton.mp member
    rfl

end MachineDescription
