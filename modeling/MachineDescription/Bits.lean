namespace MachineDescription.Bits

/-- The first number that has no pattern of a width. The patterns of the width are the numbers below
it. -/
def limit (width : Nat) : Nat :=
  1 <<< width

/-- The number whose binary digits are the given bits, least significant first. -/
def ofList (bits : List Bool) : Nat :=
  bits.foldr (fun bit rest => bit.toNat + 2 * rest) 0

/-- Change the bit at an index. -/
def put (n index : Nat) (bit : Bool) : Nat :=
  if n.testBit index = bit then n else n ^^^ 1 <<< index

def ones (count : Nat) : Nat :=
  limit count - 1

/-- The two's complement of an integer at a width: its remainder, which has the sign of the integer,
and the limit on top of a negative one. -/
def twosComplement (n : Int) (width : Nat) : Nat :=
  let reduced := n.tmod (limit width)
  (if reduced < 0 then reduced + limit width else reduced).toNat

theorem limit_pos (width : Nat) : 0 < limit width := by
  rw [limit, Nat.one_shiftLeft]
  exact Nat.two_pow_pos width

@[simp]
theorem limit_zero : limit 0 = 1 := rfl

theorem limit_succ (width : Nat) : limit (width + 1) = 2 * limit width := by
  simp only [limit, Nat.one_shiftLeft, Nat.pow_succ]
  omega

theorem limit_add (width other : Nat) : limit (width + other) = limit width * limit other := by
  rw [limit, limit, limit, Nat.one_shiftLeft, Nat.one_shiftLeft, Nat.one_shiftLeft, Nat.pow_add]

theorem limit_mono {width wider : Nat} (fits : width ≤ wider) : limit width ≤ limit wider := by
  simp only [limit, Nat.one_shiftLeft]
  exact Nat.pow_le_pow_right (by decide) fits

/-- The remainder that is never negative. -/
theorem twosComplement_eq (n : Int) (width : Nat) :
    twosComplement n width = (n % limit width).toNat := by
  have positive : (0 : Int) < limit width := Int.natCast_pos.mpr (limit_pos width)
  have low := Int.emod_nonneg n (Int.ne_of_gt positive)
  have high := Int.emod_lt_of_pos n positive
  have reduced : n.tmod (limit width) = n % limit width ∨
      n.tmod (limit width) = n % limit width - limit width := by
    rw [Int.tmod_eq_emod, Int.natAbs_natCast]
    split <;> omega
  simp only [twosComplement]
  split <;> omega

theorem twosComplement_lt (n : Int) (width : Nat) : twosComplement n width < limit width := by
  have positive : (0 : Int) < limit width := Int.natCast_pos.mpr (limit_pos width)
  rw [twosComplement_eq, Int.toNat_lt (Int.emod_nonneg n (Int.ne_of_gt positive))]
  exact Int.emod_lt_of_pos n positive

/-- The patterns of a width are the numbers without a bit at the width or above. -/
theorem lt_limit_iff {n width : Nat} :
    n < limit width ↔ ∀ index, width ≤ index → n.testBit index = false := by
  constructor
  · intro small index beyond
    have smaller := Nat.lt_of_lt_of_le small (limit_mono beyond)
    rw [limit, Nat.one_shiftLeft] at smaller
    exact Nat.testBit_lt_two_pow smaller
  · intro clear
    rw [limit, Nat.one_shiftLeft]
    exact Nat.lt_pow_two_of_testBit n clear

@[simp]
theorem ofList_nil : ofList [] = 0 := rfl

@[simp]
theorem ofList_cons (bit : Bool) (bits : List Bool) :
    ofList (bit :: bits) = bit.toNat + 2 * ofList bits := rfl

theorem ofList_lt (bits : List Bool) : ofList bits < limit bits.length := by
  induction bits with
  | nil => simp
  | cons bit bits ih =>
    simp only [ofList_cons, List.length_cons, limit_succ]
    have := bit.toNat_lt
    omega

theorem testBit_ofList (bits : List Bool) (index : Nat) :
    (ofList bits).testBit index = bits.getD index false := by
  induction bits generalizing index with
  | nil => simp
  | cons bit bits ih =>
    cases index with
    | zero => cases bit <;> simp [Nat.testBit_zero]
    | succ index =>
      have half : (bit.toNat + 2 * ofList bits) / 2 = ofList bits := by
        have := bit.toNat_lt
        omega
      simp [Nat.testBit_succ, half, ih]

theorem testBit_put (n index : Nat) (bit : Bool) (other : Nat) :
    (put n index bit).testBit other = if index = other then bit else n.testBit other := by
  unfold put
  by_cases same : n.testBit index = bit
  · rw [if_pos same]
    by_cases at_index : index = other
    · subst at_index; simp [same]
    · simp [at_index]
  · rw [if_neg same, Nat.testBit_xor, Nat.one_shiftLeft, Nat.testBit_two_pow]
    by_cases at_index : index = other
    · subst at_index
      cases bit <;> cases hbit : n.testBit index <;> simp_all
    · simp [at_index]

theorem put_lt {n index width : Nat} {bit : Bool} (small : n < limit width)
    (inside : index < width) : put n index bit < limit width := by
  rw [lt_limit_iff] at small ⊢
  intro other beyond
  have outside : index ≠ other := by omega
  rw [testBit_put, if_neg outside]
  exact small other beyond

end MachineDescription.Bits
