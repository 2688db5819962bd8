import MachineDescription.Proofs.RenderedValues
import MachineDescription.Proofs.SpelledNumerals

namespace MachineDescription

namespace Text

/-- The part of a text that is left without the blanks at both ends. -/
structure Trimmed (text part : List Char) : Prop where
  framed : ∃ before after, text = before ++ (part ++ after) ∧
    (∀ c ∈ before, isBlank c = true) ∧ ∀ c ∈ after, isBlank c = true
  first : ∀ c ∈ part.head?, isBlank c = false
  last : ∀ c ∈ part.getLast?, isBlank c = false

theorem exists_blanks (text : List Char) :
    ∃ blanks, text = blanks ++ trimStart text ∧ ∀ c ∈ blanks, isBlank c = true :=
  ⟨text.takeWhile isBlank, List.takeWhile_append_dropWhile.symm,
    List.all_eq_true.mp List.all_takeWhile⟩

theorem not_blank_of_head? {text : List Char} {c : Char} (first : (trimStart text).head? = some c) :
    isBlank c = false := by
  have stops := List.head?_dropWhile_not isBlank text
  rw [trimStart] at first
  rwa [first] at stops

theorem trimmed_trim (text : List Char) : Trimmed text (trim text) := by
  obtain ⟨before, front, blankBefore⟩ := exists_blanks text
  -- The end of a text is the front of the reversed text.
  obtain ⟨after, back, blankAfter⟩ := exists_blanks (trimStart text).reverse
  have rest : trimStart text = trim text ++ after.reverse := by
    have turned := congrArg List.reverse back
    rwa [List.reverse_reverse, List.reverse_append] at turned
  refine ⟨⟨before, after.reverse, ?_, blankBefore, fun c member => ?_⟩, fun c first => ?_,
    fun c last => ?_⟩
  · rw [← rest, ← front]
  · exact blankAfter c (List.mem_reverse.mp member)
  · have start : (trimStart text).head? = some c := by
      rw [rest, List.head?_append, Option.mem_def.mp first, Option.some_or]
    exact not_blank_of_head? start
  · rw [trim, trimEnd, List.getLast?_reverse] at last
    exact not_blank_of_head? last

end Text

namespace LiteralKind

/-- The marks of the base; the decimal base has none. -/
def marks : LiteralKind → List (List Char)
  | decimal => [[]]
  | hexadecimal => [['0', 'x'], ['0', 'X']]
  | octal => [['0', 'o'], ['0', 'O']]
  | binary => [['0', 'b'], ['0', 'B']]

theorem base_le_sixteen (kind : LiteralKind) : kind.base ≤ 16 := by
  cases kind <;> decide

end LiteralKind

namespace Literal

/-- Without its underscores the numeral is one plus sign or none, and then one or more digits. The
number is their positional value. -/
def Denotes (base : Nat) (numeral : List Char) (n : Nat) : Prop :=
  ∃ plus text digits, numeral.filter (· ≠ '_') = plus ++ text ∧ (plus = [] ∨ plus = ['+']) ∧
    text ≠ [] ∧ Numeral.Spells base text digits ∧ Nat.ofDigits base digits.reverse = n

/-- A text of sign, mark and numeral. -/
inductive Composed : List Char → Bool → LiteralKind → List Char → Prop
  | unsigned {kind : LiteralKind} {mark : List Char} (marked : mark ∈ kind.marks)
      (numeral : List Char) : Composed (mark ++ numeral) false kind numeral
  | negative {gap : List Char} {kind : LiteralKind} {mark : List Char}
      (blank : ∀ c ∈ gap, Text.isBlank c = true) (marked : mark ∈ kind.marks)
      (numeral : List Char) : Composed ('-' :: (gap ++ (mark ++ numeral))) true kind numeral

/-- A text of the grammar, with what it stands for. -/
def Written (text : List Char) (negative : Bool) (kind : LiteralKind) (n : Nat) : Prop :=
  ∃ numeral, Composed text negative kind numeral ∧ Denotes kind.base numeral n

section Characters

theorem plain_of_spelled {digit : Nat} {c : Char} (few : digit < 16)
    (spelled : c.toLower = Nat.digitChar digit) : Plain c := by
  rw [Numeral.toLower_eq_digitChar_iff few] at spelled
  have range : (48 ≤ c.toNat ∧ c.toNat ≤ 57) ∨ (65 ≤ c.toNat ∧ c.toNat ≤ 70) ∨
      (97 ≤ c.toNat ∧ c.toNat ≤ 102) := by
    split_ifs at spelled <;> omega
  have other (sign : Char) (outside : sign.toNat ∈ [43, 45, 95]) : c ≠ sign := by
    rintro rfl
    simp only [List.mem_cons, List.not_mem_nil, or_false] at outside
    omega
  refine ⟨?_, other '-' (by decide), other '+' (by decide), other '_' (by decide)⟩
  simp only [Text.isBlank, Bool.or_eq_false_iff, Bool.and_eq_false_iff, decide_eq_false_iff_not,
    beq_eq_false_iff_ne]
  omega

theorem not_letter_of_spelled {digit : Nat} {c : Char} (few : digit < 10)
    (spelled : c.toLower = Nat.digitChar digit) : c ∉ ['b', 'B', 'o', 'O', 'x', 'X'] := by
  rw [Numeral.toLower_eq_digitChar_iff (by omega), if_pos few] at spelled
  have letters : (['b', 'B', 'o', 'O', 'x', 'X'].all fun c => 57 < c.toNat) = true := rfl
  intro member
  have above := of_decide_eq_true (List.all_eq_true.mp letters c member)
  omega

variable {base n : Nat} {numeral : List Char}

/-- The characters of a numeral are underscores, plus signs and digits of the base. -/
theorem Denotes.cases_of_mem (denotes : Denotes base numeral n) {c : Char} (member : c ∈ numeral) :
    c = '_' ∨ c = '+' ∨ ∃ digit < base, c.toLower = Nat.digitChar digit := by
  obtain ⟨plus, text, digits, split, sign, _, spelled, _⟩ := denotes
  by_cases underscore : c = '_'
  · exact Or.inl underscore
  · have kept : c ∈ plus ++ text := split ▸ List.mem_filter.mpr ⟨member, decide_eq_true underscore⟩
    rcases List.mem_append.mp kept with inPlus | inText
    · rcases sign with rfl | rfl
      · cases inPlus
      · exact Or.inr (Or.inl (List.mem_singleton.mp inPlus))
    · exact Or.inr (Or.inr (spelled.exists_digit inText))

/-- A numeral has neither blanks nor minus signs in it. -/
theorem Denotes.clean (few : base ≤ 16) (denotes : Denotes base numeral n) :
    ∀ c ∈ numeral, Text.isBlank c = false ∧ c ≠ '-' := by
  intro c member
  rcases denotes.cases_of_mem member with rfl | rfl | ⟨digit, below, spelled⟩
  · decide
  · decide
  · have plain := plain_of_spelled (by omega) spelled
    exact ⟨plain.1, plain.2.1⟩

theorem clean_of_mem_marks {kind : LiteralKind} {mark : List Char} (marked : mark ∈ kind.marks) :
    ∀ c ∈ mark, Text.isBlank c = false ∧ c ≠ '-' := by
  cases kind with
  | decimal =>
    cases List.mem_singleton.mp marked
    exact nofun
  | hexadecimal | octal | binary =>
    rcases List.mem_pair.mp marked with rfl | rfl
    all_goals exact List.forall_mem_cons.mpr ⟨by decide, List.forall_mem_singleton.mpr (by decide)⟩

end Characters

section Parser

variable {base n : Nat} {numeral text : List Char} {negative : Bool} {kind : LiteralKind}

theorem exists_plus (text : List Char) :
    ∃ plus, text = plus ++ dropPlus text ∧ (plus = [] ∨ plus = ['+']) := by
  unfold dropPlus
  split
  · exact ⟨['+'], rfl, Or.inr rfl⟩
  · exact ⟨[], rfl, Or.inl rfl⟩

/-- A numeral is a row of digits that one plus sign may precede, with underscores anywhere. -/
theorem denotes_iff_read? (few : base ≤ 16) :
    Denotes base numeral n ↔ Numeral.read? base (dropPlus (significant numeral)) = some n := by
  rw [Numeral.read?_eq_some_iff few]
  constructor
  · rintro ⟨plus, text, digits, split, sign, nonempty, spelled, value⟩
    have plain : ∀ c ∈ text, Plain c := by
      intro c member
      obtain ⟨digit, below, spells⟩ := spelled.exists_digit member
      exact plain_of_spelled (by omega) spells
    have dropped : dropPlus (significant numeral) = text := by
      rw [significant, split]
      rcases sign with rfl | rfl
      · exact dropPlus_of_plain plain
      · rfl
    rw [dropped]
    exact ⟨nonempty, digits, spelled, value⟩
  · rintro ⟨nonempty, digits, spelled, value⟩
    obtain ⟨plus, split, sign⟩ := exists_plus (significant numeral)
    exact ⟨plus, _, digits, split, sign, nonempty, spelled, value⟩

theorem exists_mark (parted : splitMark text = (kind, numeral)) :
    ∃ mark ∈ kind.marks, text = mark ++ numeral := by
  unfold splitMark at parted
  split at parted
  all_goals obtain ⟨rfl, rfl⟩ := Prod.mk.inj parted
  · exact ⟨['0', 'b'], by decide, rfl⟩
  · exact ⟨['0', 'B'], by decide, rfl⟩
  · exact ⟨['0', 'o'], by decide, rfl⟩
  · exact ⟨['0', 'O'], by decide, rfl⟩
  · exact ⟨['0', 'x'], by decide, rfl⟩
  · exact ⟨['0', 'X'], by decide, rfl⟩
  · exact ⟨[], by decide, rfl⟩

/-- A text is composed in the way in which it is split. -/
theorem composed_of_split {unsigned : List Char} (signed : splitSign text = (negative, unsigned))
    (parted : splitMark unsigned = (kind, numeral)) : Composed text negative kind numeral := by
  obtain ⟨mark, marked, rfl⟩ := exists_mark parted
  unfold splitSign at signed
  split at signed
  · rename_i rest
    obtain ⟨rfl, same⟩ := Prod.mk.inj signed
    obtain ⟨gap, whole, blank⟩ := Text.exists_blanks rest
    rw [whole, same]
    exact .negative blank marked numeral
  · obtain ⟨rfl, rfl⟩ := Prod.mk.inj signed
    exact .unsigned marked numeral

/-- No text is written with two marks: a decimal digit is no letter of a mark. -/
theorem splitMark_of_marked {mark : List Char} (marked : mark ∈ kind.marks)
    (denotes : Denotes kind.base numeral n) : splitMark (mark ++ numeral) = (kind, numeral) := by
  cases kind with
  | decimal =>
    cases List.mem_singleton.mp marked
    refine splitMark_of_no_letters fun c member => ?_
    rcases denotes.cases_of_mem member with rfl | rfl | ⟨digit, below, spelled⟩
    · decide
    · decide
    · exact not_letter_of_spelled below spelled
  | hexadecimal | octal | binary =>
    rcases List.mem_pair.mp marked with rfl | rfl
    all_goals rfl

/-- A text that denotes a number is split in the way in which it is composed. -/
theorem split_of_composed (composed : Composed text negative kind numeral)
    (denotes : Denotes kind.base numeral n) :
    ∃ unsigned, splitSign text = (negative, unsigned) ∧ splitMark unsigned = (kind, numeral) := by
  have clean {mark : List Char} (marked : mark ∈ kind.marks) :
      ∀ c ∈ mark ++ numeral, Text.isBlank c = false ∧ c ≠ '-' := by
    intro c member
    rcases List.mem_append.mp member with inMark | inNumeral
    · exact clean_of_mem_marks marked c inMark
    · exact denotes.clean kind.base_le_sixteen c inNumeral
  cases composed with
  | @unsigned _ mark marked =>
    refine ⟨mark ++ numeral, ?_, splitMark_of_marked marked denotes⟩
    unfold splitSign
    split
    · rename_i rest same
      exact absurd rfl (clean marked '-' (same ▸ List.mem_cons_self)).2
    · rfl
  | @negative gap _ mark blank marked =>
    refine ⟨mark ++ numeral, ?_, splitMark_of_marked marked denotes⟩
    have bare := Text.trimStart_of_no_blanks fun c member => (clean marked c member).1
    have trimmed : Text.trimStart (gap ++ (mark ++ numeral)) = mark ++ numeral := by
      rw [Text.trimStart, List.dropWhile_append_of_pos blank]
      exact bare
    rw [splitSign, trimmed]

theorem ne_nil_of_composed (composed : Composed text negative kind numeral)
    (denotes : Denotes kind.base numeral n) : text ≠ [] := by
  obtain ⟨plus, digits, _, split, _, nonempty, _⟩ := denotes
  have numeral_ne : numeral ≠ [] := by
    rintro rfl
    exact nonempty (List.append_eq_nil_iff.mp split.symm).2
  cases composed with
  | unsigned marked => exact List.append_ne_nil_of_right_ne_nil _ numeral_ne
  | negative blank marked => exact List.cons_ne_nil _ _

theorem ofNumeral?_of_denotes (denotes : Denotes kind.base numeral n) :
    ofNumeral? kind negative numeral =
      some ⟨n, negative, kind, declaredWidth? kind numeral⟩ := by
  rw [ofNumeral?, (denotes_iff_read? kind.base_le_sixteen).mp denotes]
  rfl

end Parser

section Outcome

variable {text : String} {negative : Bool} {kind : LiteralKind} {numeral : List Char} {n : Nat}

theorem parse_of_blank (blank : Text.trim text.toList = []) : parse text = .error .empty := by
  simp only [parse, blank, List.isEmpty_nil, if_true]

section Split

variable {unsigned : List Char} (nonempty : Text.trim text.toList ≠ [])
  (signed : splitSign (Text.trim text.toList) = (negative, unsigned))
  (parted : splitMark unsigned = (kind, numeral))

include nonempty signed parted

theorem parse_of_malformed (failed : ofNumeral? kind negative numeral = none) :
    parse text = .error (.malformed (String.ofList numeral)) := by
  simp only [parse, List.isEmpty_iff, nonempty, if_false, signed, parted, failed]

theorem parse_of_numeral {literal : Literal}
    (read : ofNumeral? kind negative numeral = some literal) :
    parse text =
      if negative = true ∧ kind = .binary then .error .negativeBinary else .ok literal := by
  simp only [parse, List.isEmpty_iff, nonempty, if_false, signed, parted, read]

end Split

/-- The parser decides for a sign and a mark before it looks at the digits, and reads every text of
the grammar all the same. -/
theorem parse_of_composed (composed : Composed (Text.trim text.toList) negative kind numeral)
    (denotes : Denotes kind.base numeral n) :
    parse text =
      if negative = true ∧ kind = .binary then .error .negativeBinary
      else .ok ⟨n, negative, kind, declaredWidth? kind numeral⟩ := by
  obtain ⟨unsigned, signed, parted⟩ := split_of_composed composed denotes
  have nonempty := ne_nil_of_composed composed denotes
  exact parse_of_numeral nonempty signed parted (ofNumeral?_of_denotes denotes)

/-- What becomes of a trimmed text. -/
inductive Outcome (text : List Char) : Except LiteralFault Literal → Prop
  | empty (blank : text = []) : Outcome text (.error .empty)
  | accepted {negative : Bool} {kind : LiteralKind} {numeral : List Char} {n : Nat}
      (composed : Composed text negative kind numeral) (denotes : Denotes kind.base numeral n)
      (allowed : ¬(negative = true ∧ kind = .binary)) :
      Outcome text (.ok ⟨n, negative, kind, declaredWidth? kind numeral⟩)
  | negativeBinary {n : Nat} (written : Written text true .binary n) :
      Outcome text (.error .negativeBinary)
  | malformed {numeral : String} (nonempty : text ≠ [])
      (unwritten : ∀ negative kind n, ¬Written text negative kind n) :
      Outcome text (.error (.malformed numeral))

/-- The four ways in which parsing ends. -/
theorem parse_outcome (text : String) : Outcome (Text.trim text.toList) (parse text) := by
  by_cases blank : Text.trim text.toList = []
  · rw [parse_of_blank blank]
    exact .empty blank
  · rcases signed : splitSign (Text.trim text.toList) with ⟨negative, unsigned⟩
    rcases parted : splitMark unsigned with ⟨kind, numeral⟩
    have composed := composed_of_split signed parted
    cases read : Numeral.read? kind.base (dropPlus (significant numeral)) with
    | none =>
      have failed : ofNumeral? kind negative numeral = none := by
        rw [ofNumeral?, read]
        rfl
      rw [parse_of_malformed blank signed parted failed]
      refine .malformed blank fun negative' kind' n written => ?_
      -- Another composition would have been found by the split.
      obtain ⟨numeral', other, denotes⟩ := written
      obtain ⟨unsigned', signed', parted'⟩ := split_of_composed other denotes
      obtain ⟨rfl, rfl⟩ := Prod.mk.inj (signed.symm.trans signed')
      obtain ⟨rfl, rfl⟩ := Prod.mk.inj (parted.symm.trans parted')
      rw [(denotes_iff_read? kind.base_le_sixteen).mp denotes] at read
      cases read
    | some n =>
      have denotes := (denotes_iff_read? kind.base_le_sixteen).mpr read
      rw [parse_of_composed composed denotes]
      split
      · rename_i refused
        obtain ⟨rfl, rfl⟩ := refused
        exact .negativeBinary ⟨numeral, composed, denotes⟩
      · rename_i allowed
        exact .accepted composed denotes allowed

end Outcome

/-- A text is read as a literal exactly if, without the blanks at its ends, it belongs to the
grammar and is no negative binary literal, and then the literal stands for the number that is
written. Of the other texts the blank ones are refused as empty, the negative binary literals as
such, and all that do not belong to the grammar as malformed. -/
theorem parse_iff_written (text : String) :
    Text.Trimmed text.toList (Text.trim text.toList) ∧
      (parse text = .error .empty ↔ Text.trim text.toList = []) ∧
      (∀ negative kind n,
        (∃ literal, parse text = .ok literal ∧ literal.negative = negative ∧ literal.kind = kind ∧
          literal.magnitude = n ∧ literal.integer = if negative then -(n : Int) else n) ↔
        Written (Text.trim text.toList) negative kind n ∧ ¬(negative = true ∧ kind = .binary)) ∧
      (parse text = .error .negativeBinary ↔
        ∃ n, Written (Text.trim text.toList) true .binary n) ∧
      ((∃ numeral, parse text = .error (.malformed numeral)) ↔
        Text.trim text.toList ≠ [] ∧
          ∀ negative kind n, ¬Written (Text.trim text.toList) negative kind n) := by
  have outcome := parse_outcome text
  refine ⟨Text.trimmed_trim _, ⟨fun empty => ?_, parse_of_blank⟩, fun negative kind n => ⟨?_, ?_⟩,
    ⟨fun refused => ?_, ?_⟩, ⟨?_, ?_⟩⟩
  · rw [empty] at outcome
    cases outcome with
    | empty blank => exact blank
  · rintro ⟨literal, parsed, rfl, rfl, rfl, _⟩
    rw [parsed] at outcome
    cases outcome with
    | accepted composed denotes allowed => exact ⟨⟨_, composed, denotes⟩, allowed⟩
  · rintro ⟨⟨numeral, composed, denotes⟩, allowed⟩
    have parsed := parse_of_composed composed denotes
    rw [if_neg allowed] at parsed
    exact ⟨_, parsed, rfl, rfl, rfl, rfl⟩
  · rw [refused] at outcome
    cases outcome with
    | negativeBinary written => exact ⟨_, written⟩
  · rintro ⟨n, numeral, composed, denotes⟩
    rw [parse_of_composed composed denotes, if_pos ⟨rfl, rfl⟩]
  · rintro ⟨numeral, refused⟩
    rw [refused] at outcome
    cases outcome with
    | malformed nonempty unwritten => exact ⟨nonempty, unwritten⟩
  · rintro ⟨nonempty, unwritten⟩
    generalize parse text = result at outcome
    cases outcome with
    | empty blank => exact absurd blank nonempty
    | accepted composed denotes => exact absurd ⟨_, composed, denotes⟩ (unwritten _ _ _)
    | negativeBinary written => exact absurd written (unwritten _ _ _)
    | malformed => exact ⟨_, rfl⟩

example : parse " - 0X_+1_f" = .ok ⟨31, true, .hexadecimal, none⟩ := by decide

end Literal

end MachineDescription
