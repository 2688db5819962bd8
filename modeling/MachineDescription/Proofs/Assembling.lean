import MachineDescription.Proofs.Construction
import MachineDescription.Proofs.EncodingPattern

namespace MachineDescription.Encoding

/-- The bits that the operand for a field puts into a word. -/
def suppliedBits (operands : List (String × Value)) (f : Field) : List (Nat × Bool) :=
  (operands.lookup f.name.simple).elim [] f.placed

/-- The bits that all operands put into a word, in the order in which they are written. -/
def operandBits (e : Encoding) (operands : List (String × Value)) : List (Nat × Bool) :=
  e.operands.flatMap (suppliedBits operands)

theorem suppliedBits_eq {operands : List (String × Value)} {f : Field} {v : Value}
    (found : operands.lookup f.name.simple = some v) : suppliedBits operands f = f.placed v := by
  rw [suppliedBits, found]
  rfl

/-- Inserting operands keeps the type and succeeds only with a value of the right width for each
field. Fields may overlap, and no write looks at what is there already, so a bit is what the last of
these fields puts there. -/
theorem insertOperands_spec {e : Encoding} {operands : List (String × Value)}
    {fields : List Field} {start word : Value}
    (run : e.insertOperands operands fields start = .ok word) :
    word.ty = start.ty ∧
      (∀ f ∈ fields, ∃ v, operands.lookup f.name.simple = some v ∧ v.width = f.ty.width) ∧
      ∀ index, word.bit index =
        (Bits.written? (fields.flatMap (suppliedBits operands)) index).getD (start.bit index) := by
  induction fields generalizing start with
  | nil =>
    cases run
    exact ⟨rfl, fun _ member => (nomatch member), fun _ => rfl⟩
  | cons f rest ih =>
    unfold insertOperands at run
    split at run
    · cases run
    · rename_i v found
      obtain ⟨next, inserted, later⟩ := exists_ok_of_bind run
      obtain ⟨width, inside, rfl⟩ := Field.insert_eq_ok_iff.mp inserted
      obtain ⟨type, supplied, bits⟩ := ih later
      refine ⟨type, ?_, fun index => ?_⟩
      · intro g member
        rcases List.mem_cons.mp member with rfl | member
        · exact ⟨v, found, width⟩
        · exact supplied g member
      · rw [bits, Field.bit_scattered inside, List.flatMap_cons, suppliedBits_eq found,
          Bits.written?_append]
        cases Bits.written? (rest.flatMap (suppliedBits operands)) index <;> rfl

/-- Assembling starts from the bits of the constants and writes the operands over them, field by
field in the order of the format. -/
theorem assemble_spec {e : Encoding} {operands : List (String × Value)} {word : Value}
    (assembled : e.assemble operands = .ok word) :
    word.ty = .bits e.format.item.width ∧
      (∀ f ∈ e.operands, ∃ v, operands.lookup f.name.simple = some v ∧ v.width = f.ty.width) ∧
      ∀ index, word.bit index = (Bits.written? (e.operandBits operands) index).getD
        ((Bits.written? e.constantBits index).getD false) := by
  unfold assemble at assembled
  split at assembled
  · cases assembled
  · obtain ⟨type, supplied, bits⟩ := insertOperands_spec assembled
    refine ⟨?_, supplied, fun index => ?_⟩
    · rw [type, ← e.width_pattern]
      rfl
    · rw [bits, ← (e.testBit_pattern index).2]
      rfl

theorem width_assembled {e : Encoding} {operands : List (String × Value)} {word : Value}
    (assembled : e.assemble operands = .ok word) : word.width = e.format.item.width := by
  rw [Value.width, (assemble_spec assembled).1]
  rfl

/-- The word belongs to its encoding as long as no operand changes a bit of a constant. -/
theorem accepts_assembled_iff {e : Encoding} {operands : List (String × Value)} {word : Value}
    (assembled : e.assemble operands = .ok word) :
    e.pattern.accepts word = true ↔
      ∀ index bit other, (index, bit) ∈ e.constantBits →
        Bits.written? (e.operandBits operands) index = some other → other = bit := by
  obtain ⟨_, _, bits⟩ := assemble_spec assembled
  rw [accepts_iff_constantBits (width_assembled assembled)]
  constructor
  · intro agree index bit other fixed last
    have atIndex := agree index bit fixed
    rw [bits, last] at atIndex
    exact atIndex
  · intro agree index bit fixed
    rw [bits]
    cases last : Bits.written? (e.operandBits operands) index with
    | none =>
      rw [written?_constantBits.mpr fixed]
      rfl
    | some other => exact agree index bit other fixed last

/-- The operand field that is inserted last of those that cover a bit. -/
def lastOperandAt? (e : Encoding) (index : Nat) : Option Field :=
  e.operands.reverse.find? (·.slice.contains index)

/-- The field that is inserted last over a bit settles it. -/
theorem written?_flatMap_suppliedBits {operands : List (String × Value)} {fields : List Field}
    (supplied : ∀ f ∈ fields, ∃ v, operands.lookup f.name.simple = some v) (index : Nat) :
    Bits.written? (fields.flatMap (suppliedBits operands)) index =
      (fields.reverse.find? (·.slice.contains index)).bind
        fun f => Bits.written? (suppliedBits operands f) index := by
  induction fields with
  | nil => rfl
  | cons f rest ih =>
    have later := ih fun g member => supplied g (List.mem_cons_of_mem _ member)
    rw [List.flatMap_cons, Bits.written?_append, later, List.reverse_cons, List.find?_append]
    cases last : rest.reverse.find? (·.slice.contains index) with
    | some g =>
      -- A later field covers the bit, so this one has no say.
      have member : g ∈ rest := List.mem_reverse.mp (List.mem_of_find?_eq_some last)
      obtain ⟨v, found⟩ := supplied g (List.mem_cons_of_mem _ member)
      have covers := List.find?_some last
      obtain ⟨bit, placed⟩ := Field.exists_placed covers v
      have settled : Bits.written? (suppliedBits operands g) index = some bit := by
        rw [suppliedBits_eq found]
        exact Field.written?_placed.mpr placed
      simp only [Option.some_or, Option.bind_some, settled]
    | none =>
      obtain ⟨v, found⟩ := supplied f List.mem_cons_self
      rw [Option.none_or, Option.bind_none, Option.none_or]
      by_cases covers : f.slice.contains index = true
      · simp only [List.find?_singleton, covers, if_true, Option.bind_some]
      · simp only [List.find?_singleton, covers, suppliedBits_eq found]
        exact Field.written?_placed_eq_none covers

/-- An assembled word is accepted by the pattern of its encoding exactly when, at each bit of a
constant, the operand field that is inserted last over it puts the same bit there. -/
theorem assembled_accepted_iff {e : Encoding} {operands : List (String × Value)} {word : Value}
    (assembled : e.assemble operands = .ok word) :
    e.pattern.accepts word = true ↔
      ∀ b ∈ e.bindings, ∀ index bit, (index, bit) ∈ b.placed →
        ∀ f v, e.lastOperandAt? index = some f → operands.lookup f.name.simple = some v →
          (index, bit) ∈ f.placed v := by
  have supplied : ∀ f ∈ e.operands, ∃ v, operands.lookup f.name.simple = some v := by
    intro f member
    obtain ⟨v, found, _⟩ := (assemble_spec assembled).2.1 f member
    exact ⟨v, found⟩
  have last : ∀ index, Bits.written? (e.operandBits operands) index =
      (e.lastOperandAt? index).bind fun f => Bits.written? (suppliedBits operands f) index :=
    written?_flatMap_suppliedBits supplied
  rw [accepts_assembled_iff assembled]
  constructor
  · intro agree b bound index bit placed f v inserted found
    have covers := List.find?_some inserted
    obtain ⟨other, placed'⟩ := Field.exists_placed covers v
    have written : Bits.written? (e.operandBits operands) index = some other := by
      rw [last, inserted, Option.bind_some, suppliedBits_eq found]
      exact Field.written?_placed.mpr placed'
    have same := agree index bit other (mem_constantBits.mpr ⟨b, bound, placed⟩) written
    rwa [same] at placed'
  · intro agree index bit other fixed written
    obtain ⟨b, bound, placed⟩ := mem_constantBits.mp fixed
    rw [last] at written
    obtain ⟨f, inserted, written⟩ := Option.bind_eq_some_iff.mp written
    obtain ⟨v, found⟩ := supplied f (List.mem_reverse.mp (List.mem_of_find?_eq_some inserted))
    rw [suppliedBits_eq found, Field.written?_placed] at written
    exact Field.placed_unique written (agree b bound index bit placed f v inserted found)

/-- The field `a` is bound, and the operands `b` and `c` lie over some of its bits. -/
def upperHalf : Encoding :=
  built (.ofParts ["Upper", "encoding"]) ⟨0, .staggered⟩ [.integer "a" 0b1111]

/-- Operands that repeat the bits of `a` where they cover them leave the word with its encoding. -/
theorem upperHalf_accepted_iff :
    upperHalf.assemble [("b", .wrap (.bits 4) 0b1101), ("c", .wrap (.uint 3) 0b011)] =
        .ok (.wrap (.bits 8) 0b11110100) ∧
      upperHalf.pattern.accepts (.wrap (.bits 8) 0b11110100) = true ∧
      ∀ b ∈ upperHalf.bindings, ∀ index bit, (index, bit) ∈ b.placed →
        ∀ f v, upperHalf.lastOperandAt? index = some f →
          List.lookup f.name.simple
            [("b", Value.wrap (.bits 4) 0b1101), ("c", .wrap (.uint 3) 0b011)] = some v →
          (index, bit) ∈ f.placed v :=
  ⟨rfl, rfl, (assembled_accepted_iff rfl).mp rfl⟩

/-- Operands that do not repeat the bits of `a` replace them. -/
theorem upperHalf_overwritten :
    ∃ word, upperHalf.assemble [("b", .zero (.bits 4)), ("c", .zero (.uint 3))] = .ok word ∧
      upperHalf.pattern.accepts word = false :=
  ⟨.zero (.bits 8), rfl, rfl⟩

end MachineDescription.Encoding
