import MachineDescription.Literal.Value
import MachineDescription.Proofs.Numerals
import MachineDescription.Proofs.TwosComplement

namespace MachineDescription

namespace Text

theorem trimStart_of_first {text : List Char} (first : ∀ c ∈ text.head?, isBlank c = false) :
    trimStart text = text := by
  cases text with
  | nil => rfl
  | cons c rest =>
    rw [trimStart, List.dropWhile_cons, first c rfl]
    rfl

theorem trim_of_ends {text : List Char} (first : ∀ c ∈ text.head?, isBlank c = false)
    (last : ∀ c ∈ text.getLast?, isBlank c = false) : trim text = text := by
  have fromBehind : text.reverse.dropWhile isBlank = text.reverse :=
    trimStart_of_first fun c start => last c (List.head?_reverse ▸ start)
  rw [trim, trimStart_of_first first, trimEnd, fromBehind, List.reverse_reverse]

theorem trimStart_of_no_blanks {text : List Char} (clean : ∀ c ∈ text, isBlank c = false) :
    trimStart text = text :=
  trimStart_of_first fun c first => clean c (List.mem_of_head? first)

theorem trim_of_no_blanks {text : List Char} (clean : ∀ c ∈ text, isBlank c = false) :
    trim text = text :=
  trim_of_ends (fun c first => clean c (List.mem_of_head? first))
    fun c last => clean c (List.mem_of_getLast? last)

end Text

namespace Literal

/-- The character is no blank, and neither a sign nor an underscore. -/
def Plain (c : Char) : Prop :=
  Text.isBlank c = false ∧ c ≠ '-' ∧ c ≠ '+' ∧ c ≠ '_'

instance (c : Char) : Decidable (Plain c) :=
  inferInstanceAs (Decidable (_ ∧ _))

theorem plain_digitChar {digit : Nat} (below : digit < 36) : Plain (Numeral.digitChar digit) := by
  have all : ∀ digit < 36, Plain (Numeral.digitChar digit) := by decide
  exact all digit below

theorem splitSign_of_plain {text : List Char} (plain : ∀ c ∈ text, Plain c) :
    splitSign text = (false, text) := by
  unfold splitSign
  split
  · exact absurd rfl (plain '-' List.mem_cons_self).2.1
  · rfl

theorem dropPlus_of_plain {text : List Char} (plain : ∀ c ∈ text, Plain c) :
    dropPlus text = text := by
  unfold dropPlus
  split
  · exact absurd rfl (plain '+' List.mem_cons_self).2.2.1
  · rfl

theorem significant_of_plain {text : List Char} (plain : ∀ c ∈ text, Plain c) :
    significant text = text :=
  List.filter_eq_self.mpr fun c member => decide_eq_true (plain c member).2.2.2

/-- Digits behind a mark are read in the base of the mark. -/
theorem ofNumeral?_of_plain {kind : LiteralKind} {numeral : List Char} {n : Nat}
    (plain : ∀ c ∈ numeral, Plain c) (read : Numeral.read? kind.base numeral = some n) :
    ofNumeral? kind false numeral = some ⟨n, false, kind, declaredWidth? kind numeral⟩ := by
  rw [ofNumeral?, significant_of_plain plain, dropPlus_of_plain plain, read]
  rfl

/-- A text without the letters of the marks has none of the marks. -/
theorem splitMark_of_no_letters {text : List Char}
    (clean : ∀ c ∈ text, c ∉ ['b', 'B', 'o', 'O', 'x', 'X']) :
    splitMark text = (.decimal, text) := by
  unfold splitMark
  split
  all_goals first
    | rfl
    | exact absurd (by decide) (clean _ (List.mem_cons_of_mem _ List.mem_cons_self))

/-- A text of plain characters is parsed by its mark and the digits behind it. -/
theorem parse_of_plain {mark numeral : List Char} {kind : LiteralKind} {n : Nat}
    (plain : ∀ c ∈ mark ++ numeral, Plain c)
    (marked : splitMark (mark ++ numeral) = (kind, numeral))
    (read : Numeral.read? kind.base numeral = some n) :
    parse (String.ofList (mark ++ numeral)) =
      .ok ⟨n, false, kind, declaredWidth? kind numeral⟩ := by
  have trimmed : Text.trim (mark ++ numeral) = mark ++ numeral :=
    Text.trim_of_no_blanks fun c member => (plain c member).1
  have nonempty : (mark ++ numeral).isEmpty = false := by
    cases numeral with
    | nil => cases read
    | cons c rest => simp
  have literal := ofNumeral?_of_plain
    (fun c member => plain c (List.mem_append_right mark member)) read
  simp [parse, String.toList_ofList, trimmed, nonempty, splitSign_of_plain plain, marked, literal]

end Literal

namespace Radix

/-- The kind of the literals that are written in the base. -/
def kind : Radix → LiteralKind
  | binary => .binary
  | decimal => .decimal
  | hexadecimal => .hexadecimal

theorem base_kind (radix : Radix) : radix.kind.base = radix.base := by
  cases radix <;> rfl

theorem two_le_base (radix : Radix) : 2 ≤ radix.base := by
  cases radix <;> decide

theorem base_le (radix : Radix) : radix.base ≤ 36 := by
  cases radix <;> decide

theorem plain_mark (radix : Radix) : ∀ c ∈ radix.mark.toList, Literal.Plain c := by
  cases radix with
  | binary | hexadecimal =>
    exact List.forall_mem_cons.mpr ⟨by decide, List.forall_mem_singleton.mpr (by decide)⟩
  | decimal => exact nofun

/-- No decimal digit is a letter, so decimal digits are not taken for another mark. -/
theorem splitMark_mark {radix : Radix} {digits : List Nat}
    (below : ∀ digit ∈ digits, digit < radix.base) :
    Literal.splitMark (radix.mark.toList ++ digits.map Numeral.digitChar) =
      (radix.kind, digits.map Numeral.digitChar) := by
  cases radix with
  | binary => rfl
  | hexadecimal => rfl
  | decimal =>
    have letter : ∀ digit < 10, Numeral.digitChar digit ∉ ['b', 'B', 'o', 'O', 'x', 'X'] := by
      decide
    have clean : ∀ c ∈ digits.map Numeral.digitChar, c ∉ ['b', 'B', 'o', 'O', 'x', 'X'] := by
      intro c member
      obtain ⟨digit, inside, rfl⟩ := List.mem_map.mp member
      exact letter digit (below digit inside)
    exact Literal.splitMark_of_no_letters clean

end Radix

namespace Value

/-- The text of a value in a base is read as its pattern in base 2, and as an integer in any other,
of whatever type. -/
theorem parse_inRadix (v : Value) (radix : Radix) (padded : Bool) (ty : DataType) :
    parse (v.inRadix radix.mark radix padded) ty =
      if radix = .binary then ofPattern v.pattern ty else ofInteger v.pattern ty := by
  obtain ⟨count, shown⟩ : ∃ count, v.inRadix radix.mark radix padded = radix.mark ++
      String.ofList (Numeral.pad count (Numeral.write radix.base v.pattern)) := ⟨_, rfl⟩
  let digits := Numeral.filled radix.base count v.pattern
  have below : ∀ digit ∈ digits, digit < radix.base := by
    intro digit member
    exact Numeral.lt_of_mem_filled (Nat.lt_of_lt_of_le (by decide) radix.two_le_base) member
  have plain : ∀ c ∈ radix.mark.toList ++ digits.map Numeral.digitChar, Literal.Plain c := by
    intro c member
    rcases List.mem_append.mp member with mark | written
    · exact radix.plain_mark c mark
    · obtain ⟨digit, inside, rfl⟩ := List.mem_map.mp written
      exact Literal.plain_digitChar (Nat.lt_of_lt_of_le (below digit inside) radix.base_le)
  have read : Numeral.read? radix.kind.base (digits.map Numeral.digitChar) = some v.pattern := by
    rw [radix.base_kind,
      Numeral.read?_map_digitChar radix.base_le (Numeral.filled_ne_nil _ _ _) below,
      Numeral.value_filled radix.two_le_base]
  have joined : v.inRadix radix.mark radix padded =
      String.ofList (radix.mark.toList ++ digits.map Numeral.digitChar) := by
    rw [shown, Numeral.pad_write, String.ofList_append, String.ofList_toList]
  rw [parse, joined, Literal.parse_of_plain plain (Radix.splitMark_mark below) read]
  cases radix <;> rfl

/-- A truth value is not filled, but has the one digit all the same. -/
theorem length_inRadix {v : Value} {radix : Radix} {bits : Nat} (mark : String)
    (base : radix.base = Bits.limit bits)
    (enough : v.width ≤ bits * max 1 (radix.digitsFor v.width)) :
    (v.inRadix mark radix true).length = mark.length + max 1 (radix.digitsFor v.width) := by
  have count : max 1 (if (true && !v.ty.isBool) = true then radix.digitsFor v.width else 0) =
      max 1 (radix.digitsFor v.width) := by
    obtain ⟨ty, pattern, small⟩ := v
    cases ty with
    | bool =>
      have one : radix.digitsFor 1 ≤ 1 := by cases radix <;> decide
      exact (Nat.max_eq_left one).symm
    | bits | sint | uint => rfl
  rw [← count] at enough ⊢
  rw [inRadix, String.length_append, String.length_ofList, Numeral.pad_write, List.length_map, base,
    Numeral.length_filled (Nat.lt_of_lt_of_le v.pattern_lt (Bits.limit_mono enough))]

/-- Binary numerals have a digit for each bit of the type and hexadecimal ones a digit for every
four bits, whatever zeros the pattern begins with. Of a type without bits, the one digit of zero is
shown. -/
theorem length_filled_numerals (v : Value) :
    v.binary.length = 2 + max 1 v.width ∧
      v.hexadecimal.length = 2 + max 1 ((v.width + 3) / 4) := by
  have ones : v.width ≤ 1 * max 1 v.width := by omega
  have nibbles : v.width ≤ 4 * max 1 ((v.width + 3) / 4) := by omega
  exact ⟨length_inRadix "0b" rfl ones, length_inRadix "0x" rfl nibbles⟩

theorem ofPattern_pattern (v : Value) : ofPattern v.pattern v.ty = .ok v :=
  dif_pos (bitLength_le_iff.mpr v.pattern_lt)

/-- The type of a value holds its pattern as an integer unless the pattern stands for a negative one
or the type is one of numbers without bits. -/
theorem holds_pattern_iff (v : Value) :
    v.ty.Holds v.pattern ↔
      ¬((v.ty.isSigned = true ∧ v.signBit = true) ∨ v.ty = .sint 0 ∨ v.ty = .uint 0) := by
  obtain ⟨ty, pattern, small⟩ := v
  rw [signBit_iff]
  cases ty with
  | bool => simp [DataType.Holds, DataType.isSigned]
  | bits width =>
    have held : (DataType.bits width).Holds pattern := by
      rw [← requiredBits_le_iff]
      exact bitLength_le_iff.mpr small
    simp [held, DataType.isSigned]
  | sint width =>
    simp only [DataType.Holds, DataType.isSigned, Value.width, DataType.width, DataType.sint.injEq,
      reduceCtorEq, true_and, or_false]
    omega
  | uint width =>
    change pattern < Bits.limit width at small
    simp only [DataType.Holds, DataType.isSigned, DataType.uint.injEq, reduceCtorEq,
      Bool.false_eq_true, false_and, false_or]
    omega

/-- As an integer, the pattern of a value stands for the value again. -/
theorem encoding_pattern (v : Value) : encoding v.pattern v.ty = v :=
  v.encoding_reading false

/-- A value is read back from its binary numeral. Its hexadecimal and decimal numerals show the
pattern too but are read as integers: they give the value back unless it is a negative integer or
has a type of numbers without bits, and then they are out of range. -/
theorem parse_rendered (v : Value) :
    parse v.binary v.ty = .ok v ∧
      ∀ text ∈ [v.hexadecimal, v.decimal],
        if (v.ty.isSigned = true ∧ v.signBit = true) ∨ v.ty = .sint 0 ∨ v.ty = .uint 0 then
          ∃ e, parse text v.ty = .error e ∧ e.kind = .range
        else parse text v.ty = .ok v := by
  have binary : parse v.binary v.ty = ofPattern v.pattern v.ty := v.parse_inRadix .binary true v.ty
  have others : ∀ text ∈ [v.hexadecimal, v.decimal],
      parse text v.ty = ofInteger v.pattern v.ty := by
    simp only [List.forall_mem_cons]
    exact ⟨v.parse_inRadix .hexadecimal true v.ty, v.parse_inRadix .decimal false v.ty, nofun⟩
  refine ⟨binary.trans v.ofPattern_pattern, fun text shown => ?_⟩
  rw [others text shown]
  split
  · rename_i overshot
    cases made : ofInteger v.pattern v.ty with
    | error e => exact ⟨e, rfl, kind_of_ofInteger made⟩
    | ok w => exact absurd overshot (v.holds_pattern_iff.mp (ofInteger_eq_ok_iff.mp made).1)
  · rename_i within
    exact ofInteger_eq_ok_iff.mpr ⟨v.holds_pattern_iff.mpr within, v.encoding_pattern.symm⟩

example : (wrap (.uint 10) 5).binary = "0b0000000101" ∧ (wrap (.uint 10) 5).hexadecimal = "0x005" ∧
    (wrap (.uint 10) 5).decimal = "5" := by
  decide

end Value

end MachineDescription
