import MachineDescription.Proofs.IntegerRange

namespace MachineDescription.Numeral

section Digits

variable {base : Nat}

theorem value_concat (digits : List Nat) (digit : Nat) :
    value base (digits ++ [digit]) = value base digits * base + digit := by
  simp [value]

theorem value_zeros (count : Nat) (digits : List Nat) :
    value base (List.replicate count 0 ++ digits) = value base digits := by
  induction count with
  | zero => rfl
  | succ count ih =>
    rw [List.replicate_succ, List.cons_append]
    simpa [value] using ih

/-- Each division at least halves the number, so a step for each bit is enough. -/
theorem value_digitsFrom (two : 2 ≤ base) {steps n : Nat} (enough : n < Bits.limit steps) :
    value base (digitsFrom base steps n).reverse = n := by
  induction steps generalizing n with
  | zero =>
    rw [Bits.limit_zero] at enough
    have zero : n = 0 := by omega
    rw [zero]
    rfl
  | succ steps ih =>
    unfold digitsFrom
    split
    · rename_i zero
      rw [zero]
      rfl
    · have halved : n / base < Bits.limit steps := by
        have less : n / base ≤ n / 2 := Nat.div_le_div_left two (by decide)
        rw [Bits.limit_succ] at enough
        omega
      rw [List.reverse_cons, value_concat, ih halved, Nat.div_add_mod']

theorem value_digits (two : 2 ≤ base) (n : Nat) : value base (digits base n) = n := by
  unfold digits
  split
  · rename_i zero
    rw [zero]
    exact Nat.zero_mul base
  · exact value_digitsFrom two (lt_limit_bitLength n)

theorem lt_of_mem_digitsFrom (positive : 0 < base) {steps n digit : Nat}
    (member : digit ∈ digitsFrom base steps n) : digit < base := by
  induction steps generalizing n with
  | zero => cases member
  | succ steps ih =>
    unfold digitsFrom at member
    split at member
    · cases member
    · rcases List.mem_cons.mp member with rfl | later
      · exact Nat.mod_lt n positive
      · exact ih later

theorem lt_of_mem_digits (positive : 0 < base) {n digit : Nat} (member : digit ∈ digits base n) :
    digit < base := by
  unfold digits at member
  split at member
  · cases List.mem_singleton.mp member
    exact positive
  · exact lt_of_mem_digitsFrom positive (List.mem_reverse.mp member)

theorem digits_ne_nil (n : Nat) : digits base n ≠ [] := by
  unfold digits
  split
  · exact List.cons_ne_nil 0 []
  · rename_i positive
    -- A positive number has a bit, so at least one division is made.
    obtain ⟨steps, length⟩ : ∃ steps, bitLength n = steps + 1 := ⟨n.log2, if_neg positive⟩
    rw [length, digitsFrom, if_neg positive]
    simp

/-- In a base of some bits, each division drops as many bits of the number. -/
theorem length_digitsFrom_le {bits steps n count : Nat} (below : n < Bits.limit (bits * count)) :
    (digitsFrom (Bits.limit bits) steps n).length ≤ count := by
  induction steps generalizing n count with
  | zero => exact Nat.zero_le count
  | succ steps ih =>
    unfold digitsFrom
    split
    · exact Nat.zero_le count
    · cases count with
      | zero =>
        rw [Nat.mul_zero, Bits.limit_zero] at below
        omega
      | succ count =>
        rw [Nat.mul_succ, Nat.add_comm, Bits.limit_add] at below
        exact Nat.succ_le_succ (ih (Nat.div_lt_of_lt_mul below))

theorem length_digits_le {bits n count : Nat} (positive : 0 < count)
    (below : n < Bits.limit (bits * count)) : (digits (Bits.limit bits) n).length ≤ count := by
  unfold digits
  split
  · exact positive
  · rw [List.length_reverse]
    exact length_digitsFrom_le below

end Digits

/-- The digits of a number, with zeros in front up to a number of digits. -/
def filled (base count n : Nat) : List Nat :=
  List.replicate (count - (digits base n).length) 0 ++ digits base n

/-- Padding a written numeral is writing a number with zeros in front. -/
theorem pad_write (base count n : Nat) :
    pad count (write base n) = (filled base count n).map digitChar := by
  rw [pad, write, filled, List.map_append, List.map_replicate, List.length_map]
  rfl

theorem value_filled {base : Nat} (two : 2 ≤ base) (count n : Nat) :
    value base (filled base count n) = n := by
  rw [filled, value_zeros, value_digits two]

/-- A number that fits has as many digits as are asked for, but always one. -/
theorem length_filled {bits count n : Nat} (below : n < Bits.limit (bits * max 1 count)) :
    (filled (Bits.limit bits) count n).length = max 1 count := by
  have most := length_digits_le (Nat.lt_of_lt_of_le Nat.one_pos (Nat.le_max_left 1 count)) below
  have least : 0 < (digits (Bits.limit bits) n).length := List.length_pos_iff.mpr (digits_ne_nil n)
  rw [filled, List.length_append, List.length_replicate]
  omega

theorem filled_ne_nil (base count n : Nat) : filled base count n ≠ [] :=
  List.append_ne_nil_of_right_ne_nil _ (digits_ne_nil n)

theorem lt_of_mem_filled {base count n digit : Nat} (positive : 0 < base)
    (member : digit ∈ filled base count n) : digit < base := by
  rcases List.mem_append.mp member with zero | own
  · rw [(List.mem_replicate.mp zero).2]
    exact positive
  · exact lt_of_mem_digits positive own

/-- Each digit is written as one character and read back from it, in every base up to 36. -/
theorem digit?_digitChar {base digit : Nat} (few : base ≤ 36) (below : digit < base) :
    digit? base (digitChar digit) = some digit := by
  have all : ∀ digit < 36, digit? 36 (digitChar digit) = some digit := by decide
  have known := all digit (by omega)
  unfold digit? at known ⊢
  rw [Option.filter_eq_some_iff] at known ⊢
  exact ⟨known.1, decide_eq_true below⟩

theorem mapM_digit?_digitChar {base : Nat} (few : base ≤ 36) {digits : List Nat}
    (below : ∀ digit ∈ digits, digit < base) :
    (digits.map digitChar).mapM (digit? base) = some digits := by
  induction digits with
  | nil => rfl
  | cons digit rest ih =>
    obtain ⟨first, later⟩ := List.forall_mem_cons.mp below
    simp [digit?_digitChar few first, ih later]

/-- Written digits are read as the number that they denote. -/
theorem read?_map_digitChar {base : Nat} (few : base ≤ 36) {digits : List Nat}
    (nonempty : digits ≠ []) (below : ∀ digit ∈ digits, digit < base) :
    read? base (digits.map digitChar) = some (value base digits) := by
  have text : (digits.map digitChar).isEmpty = false := by simpa using nonempty
  rw [read?, text, mapM_digit?_digitChar few below]
  rfl

end MachineDescription.Numeral
