import MachineDescription.Proofs.Numerals
import Mathlib.Data.List.Forall2
import Mathlib.Data.Nat.Digits.Defs

namespace MachineDescription.Numeral

/-- The characters spell the digits, one by one; letters may have either case. -/
def Spells (base : Nat) (text : List Char) (digits : List Nat) : Prop :=
  List.Forall₂ (fun c digit => digit < base ∧ c.toLower = Nat.digitChar digit) text digits

theorem Spells.exists_digit {base : Nat} {text : List Char} {digits : List Nat}
    (spelled : Spells base text digits) {c : Char} (member : c ∈ text) :
    ∃ digit < base, c.toLower = Nat.digitChar digit := by
  induction spelled with
  | nil => cases member
  | @cons first digit rest digits spells _ ih =>
    rcases List.mem_cons.mp member with rfl | later
    · exact ⟨digit, spells⟩
    · exact ih later

theorem Spells.lt_base {base : Nat} {text : List Char} {digits : List Nat}
    (spelled : Spells base text digits) {digit : Nat} (member : digit ∈ digits) : digit < base := by
  induction spelled with
  | nil => cases member
  | cons spells _ ih =>
    rcases List.mem_cons.mp member with rfl | later
    · exact spells.1
    · exact ih later

theorem toNat_toLower (c : Char) :
    c.toLower.toNat = if 65 ≤ c.toNat ∧ c.toNat ≤ 90 then c.toNat + 32 else c.toNat := by
  unfold Char.toLower
  split
  · rename_i upper
    obtain ⟨low, high⟩ := upper
    have low : 65 ≤ c.toNat := UInt32.le_iff_toNat_le.mp low
    have high : c.toNat ≤ 90 := UInt32.le_iff_toNat_le.mp high
    rw [if_pos ⟨low, high⟩]
    change (c.val + 32).toNat = c.val.toNat + 32
    rw [UInt32.toNat_add]
    change (c.toNat + 32) % 2 ^ 32 = c.toNat + 32
    omega
  · rename_i other
    rw [if_neg]
    rintro ⟨low, high⟩
    exact other ⟨UInt32.le_iff_toNat_le.mpr low, UInt32.le_iff_toNat_le.mpr high⟩

/-- The characters of a digit by their code points. -/
theorem toLower_eq_digitChar_iff {digit : Nat} (few : digit < 16) {c : Char} :
    c.toLower = Nat.digitChar digit ↔
      if digit < 10 then c.toNat = 48 + digit else c.toNat = 87 + digit ∨ c.toNat = 55 + digit := by
  have codes : ∀ digit < 16,
      (Nat.digitChar digit).toNat = if digit < 10 then 48 + digit else 87 + digit := by decide
  rw [← Char.toNat_inj, toNat_toLower, codes digit few]
  split_ifs <;> omega

/-- In a base of at most sixteen a digit is a decimal digit or one of the first letters. -/
theorem digit?_eq_some_iff {base digit : Nat} (few : base ≤ 16) {c : Char} :
    digit? base c = some digit ↔ digit < base ∧ c.toLower = Nat.digitChar digit := by
  have codes : digit? base c = (if 48 ≤ c.toNat ∧ c.toNat ≤ 57 then some (c.toNat - 48)
      else if 97 ≤ c.toNat ∧ c.toNat ≤ 122 then some (c.toNat - 97 + 10)
      else if 65 ≤ c.toNat ∧ c.toNat ≤ 90 then some (c.toNat - 65 + 10)
      else none).filter (· < base) := rfl
  rw [codes, Option.filter_eq_some_iff, and_comm, decide_eq_true_eq]
  refine and_congr_right fun below => ?_
  rw [toLower_eq_digitChar_iff (by omega)]
  split_ifs <;> simp only [Option.some.injEq, false_iff] <;> omega

theorem mapM_eq_some_iff {α β : Type} {f : α → Option β} {l : List α} {l' : List β} :
    l.mapM f = some l' ↔ List.Forall₂ (fun a b => f a = some b) l l' := by
  induction l generalizing l' with
  | nil => simp [eq_comm]
  | cons a rest ih =>
    rw [List.forall₂_cons_left_iff]
    simp only [List.mapM_cons, ← ih]
    cases f a with
    | none => simp
    | some b => cases rest.mapM f <;> simp [eq_comm]

theorem mapM_digit?_eq_some_iff {base : Nat} (few : base ≤ 16) {text : List Char}
    {digits : List Nat} : text.mapM (digit? base) = some digits ↔ Spells base text digits := by
  simp only [mapM_eq_some_iff, digit?_eq_some_iff few, Spells]

/-- The digits of a text stand with the highest one first. -/
theorem value_eq_ofDigits (base : Nat) (digits : List Nat) :
    value base digits = Nat.ofDigits base digits.reverse := by
  rw [Nat.ofDigits_eq_foldr, List.foldr_reverse]
  refine List.foldl_ext _ _ 0 fun total digit _ => ?_
  rw [Nat.mul_comm, Nat.add_comm]
  rfl

/-- A text is read as a number exactly if it spells one or more digits, and the number is their
positional value. -/
theorem read?_eq_some_iff {base : Nat} (few : base ≤ 16) {text : List Char} {n : Nat} :
    read? base text = some n ↔
      text ≠ [] ∧ ∃ digits, Spells base text digits ∧ Nat.ofDigits base digits.reverse = n := by
  unfold read?
  split
  · rename_i empty
    simp [List.isEmpty_iff.mp empty]
  · rename_i nonempty
    simp only [List.isEmpty_iff] at nonempty
    simp only [Option.map_eq_some_iff, mapM_digit?_eq_some_iff few, value_eq_ofDigits, ne_eq,
      nonempty, not_false_eq_true, true_and]

end MachineDescription.Numeral
