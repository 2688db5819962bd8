import MachineDescription.Proofs.Construction
import MachineDescription.Proofs.FieldBits
import MachineDescription.Proofs.PatternBits
import Mathlib.Data.List.Pairwise

namespace MachineDescription

/-- Binding refuses a constant that contradicts an earlier one on a shared bit. -/
theorem conflictingBit?_eq_none_iff {fixed added : List (Nat × Bool)} :
    conflictingBit? fixed added = none ↔
      ∀ index bit other, (index, bit) ∈ fixed → (index, other) ∈ added → bit = other := by
  simp only [conflictingBit?, Option.map_eq_none_iff, List.find?_eq_none, Prod.forall,
    List.any_eq_true, Prod.exists, Bool.and_eq_true, beq_iff_eq, bne_iff_ne, not_exists, not_and,
    ne_eq, not_not]
  constructor
  · intro clear index bit other inFixed inAdded
    exact clear index other inAdded index bit inFixed rfl
  · intro agree index other inAdded first bit inFixed same
    subst same
    exact agree first bit other inFixed inAdded

/-- Two bindings put the same bit wherever both put one. -/
def Binding.Agrees (b c : Binding) : Prop :=
  ∀ index bit other, (index, bit) ∈ b.placed → (index, other) ∈ c.placed → bit = other

theorem Binding.Agrees.refl (b : Binding) : b.Agrees b :=
  fun _ _ _ first second => Field.placed_unique first second

instance : Std.Symm Binding.Agrees :=
  ⟨fun _ _ agree index bit other first second => (agree index other bit second first).symm⟩

namespace Encoding

/-- The bits that the constants put into a word, in the order of the bindings. -/
def constantBits (e : Encoding) : List (Nat × Bool) :=
  e.bindings.flatMap Binding.placed

theorem mem_constantBits {e : Encoding} {index : Nat} {bit : Bool} :
    (index, bit) ∈ e.constantBits ↔ ∃ b ∈ e.bindings, (index, bit) ∈ b.placed :=
  List.mem_flatMap

theorem msb_lt_width {e : Encoding} {b : Binding} (bound : b ∈ e.bindings) :
    b.field.slice.msb < e.format.item.width :=
  e.format.item.within _ (e.known b bound)

theorem lt_width_of_mem_constantBits {e : Encoding} {index : Nat} {bit : Bool}
    (member : (index, bit) ∈ e.constantBits) : index < e.format.item.width := by
  obtain ⟨b, bound, placed⟩ := mem_constantBits.mp member
  have below := Slice.le_msb_of_contains (Field.contains_of_placed placed)
  have top := msb_lt_width bound
  omega

/-- Whatever constants were bound, they agree on every bit that they share. -/
theorem constantBits_unique {e : Encoding} {index : Nat} {bit other : Bool}
    (left : (index, bit) ∈ e.constantBits) (right : (index, other) ∈ e.constantBits) :
    bit = other := by
  obtain ⟨b, inB, placedB⟩ := mem_constantBits.mp left
  obtain ⟨c, inC, placedC⟩ := mem_constantBits.mp right
  have agree : e.bindings.Pairwise Binding.Agrees :=
    e.consistent.imp fun clear => conflictingBit?_eq_none_iff.mp clear
  have all := List.Pairwise.forall_of_forall (fun b _ => Binding.Agrees.refl b) agree
  exact all inB inC index bit other placedB placedC

/-- As the constants agree, the order in which they are written does not matter. -/
theorem written?_constantBits {e : Encoding} {index : Nat} {bit : Bool} :
    Bits.written? e.constantBits index = some bit ↔ (index, bit) ∈ e.constantBits := by
  constructor
  · exact Bits.mem_of_written?
  · intro member
    exact Bits.written?_eq_some_of_agree member fun _ also => constantBits_unique also member

theorem width_pattern (e : Encoding) : e.pattern.width = e.format.item.width :=
  Pattern.width_fixAll _ _

/-- The pattern is what the constants write into a word without bits. -/
theorem testBit_pattern (e : Encoding) (index : Nat) :
    e.pattern.isFixed index = (Bits.written? e.constantBits index).isSome ∧
      e.pattern.bits.testBit index = (Bits.written? e.constantBits index).getD false := by
  have inside : ∀ entry ∈ e.constantBits,
      entry.1 < (Pattern.wildcard e.format.item.width).width :=
    fun _ member => lt_width_of_mem_constantBits member
  obtain ⟨mask, bits⟩ := Pattern.testBit_fixAll inside index
  refine ⟨mask.trans ?_, bits.trans ?_⟩
  · simp [Pattern.isFixed, Pattern.wildcard]
  · simp [Pattern.wildcard]

theorem mem_fixed_pattern {e : Encoding} {index : Nat} :
    index ∈ e.pattern.fixed ↔ ∃ bit, (index, bit) ∈ e.constantBits := by
  rw [Pattern.mem_fixed, (e.testBit_pattern index).1, Option.isSome_iff_exists]
  exact exists_congr fun bit => written?_constantBits

theorem testBit_pattern_of_mem {e : Encoding} {index : Nat} {bit : Bool}
    (member : (index, bit) ∈ e.constantBits) : e.pattern.bits.testBit index = bit := by
  rw [(e.testBit_pattern index).2, written?_constantBits.mpr member]
  rfl

/-- A word of the format is accepted when it has all the bits of the constants. -/
theorem accepts_iff_constantBits {e : Encoding} {word : Value}
    (width : word.width = e.format.item.width) :
    e.pattern.accepts word = true ↔
      ∀ index bit, (index, bit) ∈ e.constantBits → word.bit index = bit := by
  rw [Pattern.accepts_iff, width_pattern]
  constructor
  · rintro ⟨_, agree⟩ index bit member
    rw [agree index (mem_fixed_pattern.mpr ⟨bit, member⟩), testBit_pattern_of_mem member]
  · intro agree
    refine ⟨width, fun index fixed => ?_⟩
    obtain ⟨bit, member⟩ := mem_fixed_pattern.mp fixed
    rw [agree index bit member, testBit_pattern_of_mem member]

/-- The words that the pattern accepts are those from which every constant is read back. -/
theorem accepts_iff_extract {e : Encoding} {word : Value}
    (width : word.width = e.format.item.width) :
    e.pattern.accepts word = true ↔ ∀ b ∈ e.bindings, b.field.extract word = .ok b.value := by
  rw [accepts_iff_constantBits width]
  have inside : ∀ b ∈ e.bindings, b.field.slice.msb < word.width := fun b bound => by
    rw [width]
    exact msb_lt_width bound
  constructor
  · intro agree b bound
    refine (Field.extract_eq_ok_iff (inside b bound)).mpr ⟨b.ty_eq, fun index bit placed => ?_⟩
    exact agree index bit (mem_constantBits.mpr ⟨b, bound, placed⟩)
  · intro read index bit member
    obtain ⟨b, bound, placed⟩ := mem_constantBits.mp member
    exact ((Field.extract_eq_ok_iff (inside b bound)).mp (read b bound)).2 index bit placed

/-- The pattern accepts a word of the format exactly when every constant is read back from it. The
fixed bits alone, with zeros at the open ones, are such a word. -/
theorem pattern_accepts_iff_constants_read (e : Encoding) :
    (∀ word : Value, word.width = e.format.item.width →
      (e.pattern.accepts word = true ↔
        ∀ b ∈ e.bindings, b.field.extract word = .ok b.value)) ∧
      ∀ b ∈ e.bindings, b.field.extract e.pattern.value = .ok b.value := by
  have width : e.pattern.value.width = e.format.item.width := e.width_pattern
  exact ⟨fun word width => accepts_iff_extract width,
    (accepts_iff_extract width).mp e.pattern.accepts_value⟩

end Encoding

/-- Bit 0 above bits 7 and 6. -/
def Slice.turned : Slice where
  ranges := [.single 0, ⟨7, 6, by decide⟩]
  nonempty := by decide
  apart := by decide
  maximal := ⟨by decide, trivial⟩
  bounded := by decide

/-- A byte with three fields, of which `b` and `c` share bits with `a`. -/
def Format.staggered : Format :=
  built (.ofParts ["Staggered"]) 8
    [.bits "a" 7 4, .bits "b" 5 2, .field "c" .turned (.uint 3)]

/-- The second binding contradicts the first one and is refused. -/
def Encoding.staggered : Encoding :=
  built (.ofParts ["Staggered", "encoding"]) ⟨0, .staggered⟩
    [.integer "a" 0b1111, .integer "b" 0b0000, .integer "b" 0b1101, .integer "c" 0b011]

/-- Three constants that share bits, read back from a word of another type. -/
theorem Encoding.staggered_accepts_iff :
    Encoding.staggered.bindings.map (·.label) = ["a", "b", "c"] ∧
      (Value.wrap (.sint 8) 0b11110110).width = Encoding.staggered.format.item.width ∧
      Encoding.staggered.pattern.accepts (.wrap (.sint 8) 0b11110110) = true ∧
      (Encoding.staggered.pattern.accepts (.wrap (.sint 8) 0b11110110) = true ↔
        ∀ b ∈ Encoding.staggered.bindings,
          b.field.extract (.wrap (.sint 8) 0b11110110) = .ok b.value) :=
  ⟨rfl, rfl, rfl, (Encoding.pattern_accepts_iff_constants_read Encoding.staggered).1 _ rfl⟩

end MachineDescription
