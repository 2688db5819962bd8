import MachineDescription.Proofs.LiteralGrammar

namespace MachineDescription.Literal

theorem bit_of_spelled {digit : Nat} {c : Char} (few : digit < 2)
    (spelled : c.toLower = Nat.digitChar digit) : c = '0' ∨ c = '1' := by
  rw [Numeral.toLower_eq_digitChar_iff (by omega), if_pos (by omega)] at spelled
  have code : c.toNat = 48 ∨ c.toNat = 49 := by omega
  exact code.imp Char.toNat_inj.mp Char.toNat_inj.mp

theorem count_of_bits {text : List Char} (bits : ∀ c ∈ text, c = '0' ∨ c = '1') :
    text.count '0' + text.count '1' = text.length ∧ text.count '+' = 0 := by
  induction text with
  | nil => exact ⟨rfl, rfl⟩
  | cons c rest ih =>
    obtain ⟨first, later⟩ := List.forall_mem_cons.mp bits
    obtain ⟨length, plus⟩ := ih later
    rcases first with rfl | rfl
    · rw [List.count_cons_self, List.count_cons_of_ne (by decide),
        List.count_cons_of_ne (by decide), List.length_cons]
      omega
    · rw [List.count_cons_of_ne (by decide), List.count_cons_self,
        List.count_cons_of_ne (by decide), List.length_cons]
      omega

/-- Leaving out the underscores changes the number of no other character. -/
theorem count_significant (numeral : List Char) {c : Char} (other : c ≠ '_') :
    (significant numeral).count c = numeral.count c :=
  List.count_filter (decide_eq_true other)

/-- The number of a binary numeral fits in its digits. The other characters that count are plus
signs, and there is one at most. -/
theorem Denotes.binary {numeral : List Char} {n : Nat} (denotes : Denotes 2 numeral n) :
    n < 2 ^ (numeral.count '0' + numeral.count '1') ∧ numeral.count '+' ≤ 1 ∧
      (significant numeral).length =
        numeral.count '0' + numeral.count '1' + numeral.count '+' := by
  obtain ⟨plus, text, digits, split, sign, _, spelled, rfl⟩ := denotes
  have bits : ∀ c ∈ text, c = '0' ∨ c = '1' := by
    intro c member
    obtain ⟨digit, below, spells⟩ := spelled.exists_digit member
    exact bit_of_spelled below spells
  obtain ⟨length, plain⟩ := count_of_bits bits
  have parts : significant numeral = plus ++ text := split
  have fits : Nat.ofDigits 2 digits.reverse < 2 ^ text.length := by
    have small : ∀ digit ∈ digits.reverse, digit < 2 := by
      intro digit member
      exact Numeral.Spells.lt_base spelled (List.mem_reverse.mp member)
    have bound := Nat.ofDigits_lt_base_pow_length (by decide) small
    rwa [List.length_reverse, ← spelled.length_eq] at bound
  rw [← count_significant numeral (by decide : '0' ≠ '_'),
    ← count_significant numeral (by decide : '1' ≠ '_'),
    ← count_significant numeral (by decide : '+' ≠ '_'), parts]
  rcases sign with rfl | rfl
  · rw [List.nil_append, length, plain]
    exact ⟨fits, by decide, rfl⟩
  · simp only [List.singleton_append, List.count_cons, List.length_cons, plain]
    refine ⟨?_, by decide, ?_⟩
    · simpa [length] using fits
    · simp [length]

/-- The digits of a binary literal stand behind its mark, and its number fits in them. Its width is
the number of digits exactly if there is no plus sign and there are fewer than 2³² digits: a plus
sign counts as a digit. Any other literal has no width. -/
theorem width_counts_digits_iff {text : String} {literal : Literal}
    (parsed : parse text = .ok literal) :
    (literal.kind = .binary → ∃ mark ∈ [['0', 'b'], ['0', 'B']], ∃ numeral,
      Text.trim text.toList = mark ++ numeral ∧
      literal.magnitude < 2 ^ (numeral.count '0' + numeral.count '1') ∧
      literal.width? = some
        ((numeral.count '0' + numeral.count '1' + numeral.count '+') % Bits.limit 32) ∧
      (literal.width? = some (numeral.count '0' + numeral.count '1') ↔
        '+' ∉ numeral ∧ numeral.count '0' + numeral.count '1' < Bits.limit 32)) ∧
      (literal.kind ≠ .binary → literal.width? = none) := by
  have outcome := parse_outcome text
  rw [parsed] at outcome
  generalize Text.trim text.toList = trimmed at outcome
  cases outcome with
  | @accepted negative kind numeral n composed denotes allowed =>
    refine ⟨?_, fun other => if_neg other⟩
    rintro rfl
    obtain ⟨fits, most, length⟩ := denotes.binary
    have width : declaredWidth? .binary numeral = some
        ((numeral.count '0' + numeral.count '1' + numeral.count '+') % Bits.limit 32) := by
      rw [declaredWidth?, if_pos rfl, length]
    cases composed with
    | negative => exact absurd ⟨rfl, rfl⟩ allowed
    | @unsigned _ mark marked =>
      refine ⟨mark, marked, numeral, rfl, fits, width, ?_⟩
      rw [width, Option.some.injEq, ← List.count_eq_zero]
      change (_ + _) % 4294967296 = _ ↔ _ ∧ _ < 4294967296
      omega

/-- Underscores do not count. -/
theorem width_counts_digits_grouped :
    parse "0b0110_011" = .ok ⟨51, false, .binary, some 7⟩ ∧
      ∃ mark ∈ [['0', 'b'], ['0', 'B']], ∃ numeral,
        Text.trim "0b0110_011".toList = mark ++ numeral ∧
        51 < 2 ^ (numeral.count '0' + numeral.count '1') := by
  have parsed : parse "0b0110_011" = .ok ⟨51, false, .binary, some 7⟩ := by decide
  obtain ⟨mark, marked, numeral, whole, fits, _⟩ := (width_counts_digits_iff parsed).1 rfl
  exact ⟨parsed, mark, marked, numeral, whole, fits⟩

/-- A literal of one digit whose width is two. -/
theorem plus_sign_widens :
    Text.trim "0b+1".toList = ['0', 'b'] ++ ['+', '1'] ∧
      ['+', '1'].count '0' + ['+', '1'].count '1' = 1 ∧
      parse "0b+1" = .ok ⟨1, false, .binary, some 2⟩ := by
  decide

end MachineDescription.Literal
