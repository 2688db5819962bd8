import MachineDescription.Proofs.Assembling
import MachineDescription.Proofs.Decoding
import MachineDescription.Proofs.Registration

namespace MachineDescription

theorem forall_mem_pairs {α : Type} {R : α → α → Prop} {l : List α} :
    (∀ p ∈ pairs l, R p.1 p.2) ↔ l.Pairwise R := by
  induction l with
  | nil => simp [pairs]
  | cons a rest ih =>
    rw [List.pairwise_cons, ← ih]
    simp only [pairs, List.mem_append, List.mem_map]
    constructor
    · intro all
      exact ⟨fun b member => all (a, b) (Or.inl ⟨b, member, rfl⟩),
        fun p member => all p (Or.inr member)⟩
    · rintro ⟨first, later⟩ p (⟨b, member, rfl⟩ | member)
      · exact first b member
      · exact later p member

theorem Field.not_both_placed {f g : Field} (apart : f.slice.overlaps g.slice = false)
    {v w : Value} {index : Nat} {bit other : Bool} (left : (index, bit) ∈ f.placed v) :
    (index, other) ∉ g.placed w := by
  intro right
  have clear := Slice.contains_eq_false_of_apart apart (contains_of_placed right)
  rw [contains_of_placed left] at clear
  cases clear

namespace Format

instance : Std.Symm fun m n : Labelled Field => m.item.slice.overlaps n.item.slice = false :=
  ⟨fun m n clear => by rwa [Slice.overlaps_comm]⟩

/-- A format without a pair of overlapping fields keeps any two of its fields apart. -/
theorem apart_of_ne {f : Format} (none : f.overlapping = []) {m n : Labelled Field}
    (left : m ∈ f.fields) (right : n ∈ f.fields) (different : m ≠ n) :
    m.item.slice.overlaps n.item.slice = false := by
  have all : (f.fields.map (·.item)).Pairwise fun a b => a.slice.overlaps b.slice = false := by
    refine forall_mem_pairs.mp fun p member => ?_
    exact Bool.eq_false_iff.mpr (List.filter_eq_nil_iff.mp none p member)
  exact (List.pairwise_map.mp all).forall left right different

theorem exists_overlap_finding {f : Format} {pair : Field × Field}
    (overlap : pair ∈ f.overlapping) :
    ∃ d ∈ f.findings, d.origin = .verification .overlappingFields :=
  ⟨_, List.mem_append_right _ (List.mem_map.mpr ⟨pair, overlap, rfl⟩), rfl⟩

end Format

namespace Encoding

theorem mem_operands {e : Encoding} {f : Field} :
    f ∈ e.operands ↔ ∃ m ∈ e.format.item.fields, e.binding? m.label = none ∧ m.item = f := by
  simp [operands, List.mem_map, List.mem_filter, and_assoc]

theorem binding?_ne_none {e : Encoding} {b : Binding} (bound : b ∈ e.bindings) :
    e.binding? b.label ≠ none := by
  intro absent
  have clear := List.find?_eq_none.mp absent b bound
  simp at clear

/-- An operand overwrites no constant. -/
theorem bound_apart_operand {e : Encoding} (none : e.format.item.overlapping = []) {b : Binding}
    (bound : b ∈ e.bindings) {f : Field} (operand : f ∈ e.operands) :
    b.field.slice.overlaps f.slice = false := by
  obtain ⟨m, member, free, rfl⟩ := mem_operands.mp operand
  refine Format.apart_of_ne none (e.known b bound) member ?_
  intro same
  rw [← same] at free
  exact binding?_ne_none bound free

/-- An operand is not overwritten by another one. -/
theorem operand_apart_operand {e : Encoding} (none : e.format.item.overlapping = []) {f g : Field}
    (left : f ∈ e.operands) (right : g ∈ e.operands) (different : f ≠ g) :
    f.slice.overlaps g.slice = false := by
  obtain ⟨m, inM, _, rfl⟩ := mem_operands.mp left
  obtain ⟨n, inN, _, rfl⟩ := mem_operands.mp right
  refine Format.apart_of_ne none inM inN ?_
  intro same
  exact different (congrArg Labelled.item same)

theorem mem_operandBits {e : Encoding} {operands : List (String × Value)} {index : Nat}
    {bit : Bool} :
    (index, bit) ∈ e.operandBits operands ↔
      ∃ f ∈ e.operands, ∃ v, operands.lookup f.name.simple = some v ∧
        (index, bit) ∈ f.placed v := by
  simp only [operandBits, List.mem_flatMap, suppliedBits]
  refine exists_congr fun f => and_congr_right fun _ => ?_
  cases operands.lookup f.name.simple <;> simp

/-- A word that was assembled without overlapping fields is accepted by the pattern of its encoding.
-/
theorem accepts_assembled {e : Encoding} (none : e.format.item.overlapping = [])
    {operands : List (String × Value)} {word : Value}
    (assembled : e.assemble operands = .ok word) : e.pattern.accepts word = true := by
  rw [accepts_assembled_iff assembled]
  intro index bit other fixed last
  obtain ⟨b, bound, placedB⟩ := mem_constantBits.mp fixed
  obtain ⟨f, operand, v, _, placedF⟩ := mem_operandBits.mp (Bits.mem_of_written? last)
  have apart := bound_apart_operand none bound operand
  exact absurd placedF (Field.not_both_placed apart placedB)

/-- Each operand is read back from the word as it was given, under the type of its field. -/
theorem extract_assembled {e : Encoding} (none : e.format.item.overlapping = [])
    {operands : List (String × Value)} {word : Value}
    (assembled : e.assemble operands = .ok word) {f : Field} (operand : f ∈ e.operands) :
    ∃ v r, operands.lookup f.name.simple = some v ∧ v.retag f.ty = .ok r ∧
      f.extract word = .ok r := by
  obtain ⟨_, supplied, bits⟩ := assemble_spec assembled
  obtain ⟨v, found, width⟩ := supplied f operand
  obtain ⟨m, member, _, rfl⟩ := mem_operands.mp operand
  have inside : m.item.slice.msb < word.width := by
    rw [width_assembled assembled]
    exact e.format.item.within m member
  refine ⟨v, ⟨m.item.ty, v.pattern, width ▸ v.pattern_lt⟩, found,
    Value.retag_eq_ok_iff.mpr ⟨width, rfl, rfl⟩, ?_⟩
  refine (Field.extract_eq_ok_iff inside).mpr ⟨rfl, fun index bit placed => ?_⟩
  have placed' : (index, bit) ∈ m.item.placed v := placed
  -- Only this field writes at the index, and it writes one bit there.
  have last : Bits.written? (e.operandBits operands) index = some bit := by
    refine Bits.written?_eq_some_of_agree
      (mem_operandBits.mpr ⟨m.item, operand, v, found, placed'⟩) fun other written => ?_
    obtain ⟨g, operand', w, found', placedG⟩ := mem_operandBits.mp written
    by_cases same : g = m.item
    · subst same
      cases found.symm.trans found'
      exact Field.placed_unique placedG placed'
    · have apart := operand_apart_operand none operand' operand same
      exact absurd placed' (Field.not_both_placed apart placedG)
  rw [bits, last]
  rfl

end Encoding

namespace InstructionSet

variable {declared : Nat → Format}

/-- An instruction set that was verified without a warning of overlapping fields has none. -/
theorem overlapping_eq_nil_of_verify {s : InstructionSet} {warnings : List Diagnostic}
    (verified : s.verify = .ok warnings)
    (apart : ∀ d ∈ warnings, d.origin ≠ .verification .overlappingFields)
    {f : Declared Format} (member : f ∈ s.formats) : f.item.overlapping = [] := by
  obtain ⟨rfl, _⟩ := verify_eq_ok_iff.mp verified
  refine List.eq_nil_iff_forall_not_mem.mpr fun pair overlap => ?_
  obtain ⟨d, report, origin⟩ := Format.exists_overlap_finding overlap
  exact apart d (mem_findings.mpr (.inl ⟨f, member, report⟩)) origin

/-- A word that was assembled for an instruction decodes as it or as an instruction that fixes the
same bits and more, and every operand is read back from it. -/
theorem decode_assembled (name : Name) (registrations : List (Registration declared))
    {warnings : List Diagnostic} (verified : (built name registrations).verify = .ok warnings)
    (apart : ∀ d ∈ warnings, d.origin ≠ .verification .overlappingFields)
    {i : Instruction} (member : i ∈ (built name registrations).instructions)
    {operands : List (String × Value)} {word : Value}
    (assembled : i.encoding.assemble operands = .ok word) :
    (∃ j ∈ (built name registrations).instructions,
      (built name registrations).decode word = some j ∧
        (j = i ∨ i.pattern.fixed ⊂ j.pattern.fixed ∧
          ∀ index ∈ i.pattern.fixed,
            j.pattern.bits.testBit index = i.pattern.bits.testBit index)) ∧
      ∀ f ∈ i.encoding.operands, ∃ v r, operands.lookup f.name.simple = some v ∧
        v.retag f.ty = .ok r ∧ f.extract word = .ok r := by
  have owned := (formatsOwned_built name registrations).owned i member
  have none := overlapping_eq_nil_of_verify verified apart owned
  have accepted : i.pattern.accepts word = true := Encoding.accepts_assembled none assembled
  refine ⟨?_, fun f operand => Encoding.extract_assembled none assembled operand⟩
  have chain := candidates_comparable verified word
  have candidate := mem_candidates.mpr ⟨member, accepted⟩
  cases found : (built name registrations).decode word with
  | none =>
    have rejected := decode_eq_none_iff.mp found i member
    rw [accepted] at rejected
    cases rejected
  | some j =>
    obtain ⟨inside, greatest⟩ := (decode_eq_some_iff chain).mp found
    obtain ⟨known, acceptedJ⟩ := mem_candidates.mp inside
    refine ⟨j, known, rfl, ?_⟩
    rcases greatest i candidate with same | refined
    · exact Or.inl same.symm
    · refine Or.inr ⟨refined, fun index fixed => ?_⟩
      rw [← (Pattern.accepts_iff.mp accepted).2 index fixed,
        ← (Pattern.accepts_iff.mp acceptedJ).2 index (refined.subset fixed)]

/-- The word that was assembled for the general instruction decodes as the one that refines it. -/
theorem decode_assembled_incrementOrRest :
    Instruction.increment.encoding.assemble [("reg", .zero (.sint 4))] =
        .ok (.wrap (.bits 8) 0x10) ∧
      ∃ j ∈ (built (.ofParts ["Tiny"]) incrementOrRest).instructions,
        (built (.ofParts ["Tiny"]) incrementOrRest).decode (.wrap (.bits 8) 0x10) = some j ∧
          (j = Instruction.increment ∨
            Instruction.increment.pattern.fixed ⊂ j.pattern.fixed ∧
              ∀ index ∈ Instruction.increment.pattern.fixed,
                j.pattern.bits.testBit index =
                  Instruction.increment.pattern.bits.testBit index) := by
  have assembled : Instruction.increment.encoding.assemble [("reg", .zero (.sint 4))] =
      .ok (.wrap (.bits 8) 0x10) := rfl
  have verified : (built (.ofParts ["Tiny"]) incrementOrRest).verify = .ok [] := rfl
  have member : Instruction.increment ∈
      (built (.ofParts ["Tiny"]) incrementOrRest).instructions := List.mem_cons_self
  exact ⟨assembled,
    (decode_assembled _ _ verified (fun _ report => (nomatch report)) member assembled).1⟩

end InstructionSet

end MachineDescription
