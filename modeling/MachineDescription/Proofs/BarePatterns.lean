import MachineDescription.Endianness
import MachineDescription.Literal.Value
import MachineDescription.Slice.Build
import MachineDescription.Proofs.EvaluationErrors
import MachineDescription.Proofs.FieldBits
import MachineDescription.Proofs.Shifts
import Mathlib.Algebra.Group.Nat.Defs

namespace MachineDescription

namespace Bits

theorem limit_eq_two_pow (width : Nat) : limit width = 2 ^ width :=
  Nat.one_shiftLeft width

theorem or_lt {a b width : Nat} (left : a < limit width) (right : b < limit width) :
    a ||| b < limit width := by
  rw [limit_eq_two_pow] at *
  exact Nat.or_lt_two_pow left right

theorem xor_lt {a b width : Nat} (left : a < limit width) (right : b < limit width) :
    a ^^^ b < limit width := by
  rw [limit_eq_two_pow] at *
  exact Nat.xor_lt_two_pow left right

theorem shiftRight_lt {n width : Nat} (small : n < limit width) (amount : Nat) :
    n >>> amount < limit width :=
  Nat.lt_of_le_of_lt (Nat.shiftRight_le n amount) small

theorem shiftLeft_lt {n width : Nat} (small : n < limit width) (amount : Nat) :
    n <<< amount < limit (width + amount) := by
  rw [shiftLeft_eq, limit_add]
  exact Nat.mul_lt_mul_of_pos_right small (limit_pos amount)

/-- The complement of a pattern is taken by a difference on values and by flipping bits on bare
patterns. -/
theorem xor_ones {n width : Nat} (small : n < limit width) : n ^^^ ones width = ones width - n := by
  have below : n < 2 ^ width := limit_eq_two_pow width ▸ small
  have distance : 2 ^ width - 1 - n = 2 ^ width - (n + 1) := by omega
  refine Nat.eq_of_testBit_eq fun index => ?_
  rw [Nat.testBit_xor, testBit_ones, ones, limit_eq_two_pow, distance,
    Nat.testBit_two_pow_sub_succ below]
  by_cases inside : index < width
  · simp [inside]
  · simp [inside, lt_limit_iff.mp small index (Nat.not_lt.mp inside)]

theorem putAll_lt {n width : Nat} {writes : List (Nat × Bool)} (small : n < limit width)
    (inside : ∀ entry ∈ writes, entry.1 < width) : putAll n writes < limit width := by
  induction writes generalizing n with
  | nil => exact small
  | cons entry rest ih =>
    obtain ⟨first, later⟩ := List.forall_mem_cons.mp inside
    exact ih (put_lt small first) later

end Bits

/-- A type and a number; nothing says that the number fits. A number is cut to the width where an
operation can exceed it: in sums and products, in negation, when bits move to the left and when a
cast or a truncation loses them. It is left as it comes everywhere else. -/
structure Bare where
  ty : DataType
  number : Nat
  deriving DecidableEq

namespace Bare

abbrev width (b : Bare) : Nat :=
  b.ty.width

def Fits (b : Bare) : Prop :=
  b.number < Bits.limit b.width

def cut (ty : DataType) (n : Nat) : Bare :=
  ⟨ty, n % Bits.limit ty.width⟩

/-- The two's complement of an integer, for one that has a pattern. -/
def encode (ty : DataType) (n : Int) : Bare :=
  ⟨ty, (if n < 0 then n + Bits.limit ty.width else n).toNat⟩

def truth (b : Bool) : Bare :=
  ⟨.bool, b.toNat⟩

def signed (b : Bare) : Int :=
  if 0 < b.width && b.number.testBit (b.width - 1) then b.number - Bits.limit b.width else b.number

def reading (b : Bare) (isSigned : Bool) : Int :=
  if isSigned then b.signed else b.number

def ofInteger (n : Int) (ty : DataType) : Option Bare :=
  if ty.Holds n then some (if ty.isBool then truth (n ≠ 0) else encode ty n) else none

def ofPattern (n : Nat) (ty : DataType) : Option Bare :=
  if bitLength n ≤ ty.width then some ⟨ty, n⟩ else none

def complement (b : Bare) : Bare :=
  ⟨b.ty, b.number ^^^ Bits.ones b.width⟩

/-- An amount modulo the width; there is nothing to move in an empty pattern. -/
def reduceAmount (b : Bare) (amount : Nat) : Nat :=
  if b.width = 0 then 0 else amount % b.width

/-- Two numbers of one width. -/
def Numbers (b c : Bare) : Prop :=
  b.ty.isBool = false ∧ 0 < b.width ∧ b.width = c.width

instance (b c : Bare) : Decidable (b.Numbers c) :=
  inferInstanceAs (Decidable (_ ∧ _))

end Bare

/-- Forget that the pattern fits. -/
def Value.bare (v : Value) : Bare :=
  ⟨v.ty, v.pattern⟩

namespace Bare

theorem fits_bare (v : Value) : v.bare.Fits :=
  v.pattern_lt

theorem Fits.exists_value {b : Bare} (fits : b.Fits) : ∃ v : Value, v.bare = b :=
  ⟨⟨b.ty, b.number, fits⟩, rfl⟩

section Result

variable {α β γ : Type} {f : α → β}

/-- What is left of a result; which error it was does not count. -/
def result (f : α → β) (x : Except Error α) : Option β :=
  x.toOption.map f

@[simp]
theorem result_ok (a : α) : result f (.ok a) = some (f a) := rfl

@[simp]
theorem result_error (err : Error) : result f (.error err) = none := rfl

theorem result_map (g : γ → α) (x : Except Error γ) :
    result f (x.map g) = result (fun c => f (g c)) x := by
  cases x <;> rfl

theorem result_eq_some_iff {x : Except Error α} {b : β} :
    result f x = some b ↔ ∃ a, x = .ok a ∧ f a = b := by
  cases x <;> simp

/-- A check either passes or ends the computation. -/
theorem result_check {check : Except Error Unit} {p : Prop} [Decidable p]
    (passes : check = .ok () ↔ p) (x : Except Error α) :
    result f (check >>= fun _ => x) = if p then result f x else none := by
  cases check with
  | ok _ => rw [if_pos (passes.mp rfl)]; rfl
  | error err => rw [if_neg fun holds => nomatch passes.mpr holds]; rfl

/-- The checks in front of sums and products see only types. -/
theorem result_checked {v w : Value} {operation : Operation} (x : Except Error α) :
    result f (v.requireNumber operation >>= fun _ =>
        v.requireSameWidth operation w >>= fun _ => x) =
      if v.bare.Numbers w.bare then result f x else none := by
  rw [result_check Value.requireNumber_eq_ok_iff, result_check Value.requireSameWidth_eq_ok_iff,
    ← ite_and]
  simp only [and_assoc]
  rfl

/-- The checks in front of a division see the types and whether the divisor is zero. -/
theorem result_division {v w : Value} {operation : Operation} (x : Except Error α) :
    result f (v.requireDivision operation w >>= fun _ => x) =
      if v.bare.Numbers w.bare ∧ w.pattern ≠ 0 then result f x else none := by
  refine result_check (Value.requireDivision_eq_ok_iff.trans ?_) x
  simp only [Numbers, Value.isZero, beq_eq_false_iff_ne, and_assoc]
  rfl

end Result

theorem fits_of_result {x : Except Error Value} {b : Bare}
    (made : result Value.bare x = some b) : b.Fits := by
  obtain ⟨v, _, rfl⟩ := result_eq_some_iff.mp made
  exact fits_bare v

/-- An operation that also runs on values keeps to the width. -/
theorem Fits.of_erased {op : Value → Except Error Value} {bareOp : Bare → Option Bare} {b c : Bare}
    (fits : b.Fits) (same : ∀ v : Value, bareOp v.bare = result Value.bare (op v))
    (made : bareOp b = some c) : c.Fits := by
  obtain ⟨v, rfl⟩ := fits.exists_value
  exact fits_of_result ((same v).symm.trans made)

theorem Fits.of_erased₂ {op : Value → Value → Except Error Value}
    {bareOp : Bare → Bare → Option Bare} {b c d : Bare} (left : b.Fits) (right : c.Fits)
    (same : ∀ v w : Value, bareOp v.bare w.bare = result Value.bare (op v w))
    (made : bareOp b c = some d) : d.Fits := by
  obtain ⟨v, rfl⟩ := left.exists_value
  obtain ⟨w, rfl⟩ := right.exists_value
  exact fits_of_result ((same v w).symm.trans made)

/-- A number that fits is not changed by the cut. -/
theorem bare_wrap_of_lt {ty : DataType} {n : Nat} (small : n < Bits.limit ty.width) :
    (Value.wrap ty n).bare = ⟨ty, n⟩ :=
  congrArg (Bare.mk ty) (Nat.mod_eq_of_lt small)

/-- One limit is enough to bring a sum or difference of patterns back into the width. -/
theorem bare_wrapInt {ty : DataType} {n : Int} (low : -Bits.limit ty.width ≤ n)
    (high : n < Bits.limit ty.width) : (Value.wrapInt ty n).bare = encode ty n := by
  refine congrArg (Bare.mk ty) (Int.ofNat_inj.mp ?_)
  rw [Value.pattern_wrapInt_eq low high]
  split <;> omega

theorem bare_complement (v : Value) : v.complement.bare = v.bare.complement :=
  congrArg (Bare.mk v.ty) (Bits.xor_ones v.pattern_lt).symm

theorem ofInteger_eq (n : Int) (ty : DataType) :
    ofInteger n ty = result Value.bare (Value.ofInteger n ty) := by
  unfold ofInteger
  split
  · rename_i holds
    have made : Value.ofInteger n ty = .ok (Value.encoding n ty) :=
      Value.ofInteger_eq_ok_iff.mpr ⟨holds, rfl⟩
    rw [made, result_ok]
    refine congrArg some ?_
    unfold Value.encoding
    cases number : ty.isBool with
    | true => rfl
    | false =>
      obtain ⟨low, high⟩ := holds.bounds number
      exact (bare_wrapInt low high).symm
  · rename_i refused
    cases made : Value.ofInteger n ty with
    | error err => rfl
    | ok v => exact absurd (Value.ofInteger_eq_ok_iff.mp made).1 refused

theorem ofPattern_eq (n : Nat) (ty : DataType) :
    ofPattern n ty = result Value.bare (Value.ofPattern n ty) := by
  unfold ofPattern Value.ofPattern
  split <;> rfl

end Bare

def UnaryOp.bare (op : UnaryOp) (b : Bare) : Option Bare :=
  match op with
  | negate => some (.cut b.ty (b.complement.number + 1))
  | complement => some b.complement
  | not => if b.ty.isBool then some (.truth (b.number == 0)) else none

def Shift.bare (shift : Shift) (b : Bare) (amount : Nat) : Bare :=
  let n := b.reduceAmount amount
  match shift with
  | left => .cut b.ty (b.number <<< amount)
  | right => ⟨b.ty, b.number >>> n⟩
  | rightSigned => .encode b.ty (b.signed / Bits.limit (min amount b.width))
  | rotateLeft =>
    if n = 0 then b else .cut b.ty ((b.number <<< n) ||| (b.number >>> (b.width - n)))
  | rotateRight =>
    if n = 0 then b else .cut b.ty ((b.number >>> n) ||| (b.number <<< (b.width - n)))

def Order.holds (order : Order) (n m : Int) : Bool :=
  match order with
  | less => n < m
  | atMost => n ≤ m
  | greater => n > m
  | atLeast => n ≥ m

def BinaryOp.bare (op : BinaryOp) (b c : Bare) : Option Bare :=
  match op with
  | add => if b.Numbers c then some (.cut b.ty (b.number + c.number)) else none
  | subtract =>
    if b.Numbers c then some (.cut b.ty (b.number + (c.complement.number + 1))) else none
  | multiply => if b.Numbers c then some (.cut b.ty (b.number * c.number)) else none
  | multiplyLong signed =>
    if b.Numbers c then
      Bare.ofInteger (b.reading signed * c.reading signed) (.integer signed (2 * b.width))
    else none
  | divide signed =>
    if b.Numbers c ∧ c.number ≠ 0 then
      Bare.ofInteger ((b.reading signed).tdiv (c.reading signed)) (.integer signed b.width)
    else none
  | modulo signed =>
    if b.Numbers c ∧ c.number ≠ 0 then
      Bare.ofInteger ((b.reading signed).tmod (c.reading signed)) (.integer signed b.width)
    else none
  | and => if b.width = c.width then some ⟨b.ty, b.number &&& c.number⟩ else none
  | or => if b.width = c.width then some ⟨b.ty, b.number ||| c.number⟩ else none
  | xor => if b.width = c.width then some ⟨b.ty, b.number ^^^ c.number⟩ else none
  | shift kind => some (kind.bare b (min c.number (Bits.ones 64)))
  | equal => if b.width = c.width then some (.truth (b.number == c.number)) else none
  | differ => if b.width = c.width then some (.truth !(b.number == c.number)) else none
  | compare order signed =>
    if b.width = c.width then some (.truth (order.holds (b.reading signed) (c.reading signed)))
    else none

def Resize.bare (mode : Resize) (b : Bare) (ty : DataType) : Option Bare :=
  match mode with
  | cast => some (.cut ty b.number)
  | truncate => if b.width < ty.width then none else some (.cut ty b.number)
  | zeroExtend => if ty.width < b.width then none else some ⟨ty, b.number⟩
  | signExtend => if ty.width < b.width then none else some (.encode ty b.signed)

namespace Bare

def retag (b : Bare) (ty : DataType) : Option Bare :=
  if b.width = ty.width then some ⟨ty, b.number⟩ else none

def toBool (b : Bare) : Option Bool :=
  if b.width = 1 then some !(b.number == 0) else none

def concat (high low : Bare) : Bare :=
  ⟨.bits (high.width + low.width), (high.number <<< low.width) ||| low.number⟩

def slice (b : Bare) (s : Slice) : Option Bare :=
  if s.msb < b.width then some ⟨.bits s.size, Bits.ofList (s.positions.map b.number.testBit)⟩
  else none

def extract (f : Field) (word : Bare) : Option Bare :=
  if f.slice.msb < word.width then
    some ⟨f.ty, Bits.ofList (f.slice.positions.map word.number.testBit)⟩
  else none

def insert (f : Field) (word b : Bare) : Option Bare :=
  if b.width = f.ty.width ∧ f.slice.msb < word.width then
    some ⟨word.ty, Bits.putAll word.number
      (f.slice.positions.zipIdx.map fun entry => (entry.1, b.number.testBit entry.2))⟩
  else none

/-- Every operator of one operand has the same outcome on a value and on its bare pattern. -/
theorem bare_unary (op : UnaryOp) (v : Value) :
    op.bare v.bare = result Value.bare (op.apply v) := by
  cases op with
  | negate =>
    change some (cut v.ty (v.bare.complement.number + 1)) = _
    rw [← bare_complement]
    rfl
  | complement => exact congrArg some (bare_complement v).symm
  | not =>
    change (if v.ty.isBool then _ else _) = result Value.bare v.not
    unfold Value.not
    split <;> rfl

theorem bare_shiftLeft (v : Value) (amount : Nat) :
    (v.shiftLeft amount).bare = cut v.ty (v.pattern <<< amount) := by
  rw [Bits.shiftLeft_eq]
  exact congrArg₂ Bare.mk (Shift.left.ty_apply v amount) (v.pattern_shiftLeft amount)

/-- Dividing does not take a signed reading out of its bounds. -/
theorem bare_shiftRightSigned (v : Value) (amount : Nat) :
    (v.shiftRightSigned amount).bare =
      encode v.ty (v.signed / Bits.limit (min amount v.width)) := by
  obtain ⟨low, high⟩ := v.signed_bounds
  have positive : (0 : Int) < Bits.limit (min amount v.width) :=
    Int.natCast_pos.mpr (Bits.limit_pos _)
  have grows : (Bits.limit v.width : Int) * 1 ≤
      Bits.limit v.width * Bits.limit (min amount v.width) :=
    Int.mul_le_mul_of_nonneg_left positive (Int.natCast_nonneg _)
  rw [Value.shiftRightSigned_eq]
  refine bare_wrapInt (Int.le_ediv_of_mul_le positive ?_) (Int.ediv_lt_of_lt_mul positive ?_)
  · change -(Bits.limit v.width : Int) * _ ≤ _
    rw [Int.neg_mul]
    omega
  · change _ < (Bits.limit v.width : Int) * _
    omega

/-- Only the shift to the left and the rotations move bits up, and only they are cut. -/
theorem bare_shift (shift : Shift) (v : Value) (amount : Nat) :
    shift.bare v.bare amount = (shift.apply v amount).bare := by
  cases shift with
  | left => exact (bare_shiftLeft v amount).symm
  | right => exact (bare_wrap_of_lt (Bits.shiftRight_lt v.pattern_lt _)).symm
  | rightSigned => exact (bare_shiftRightSigned v amount).symm
  | rotateLeft | rotateRight =>
    simp only [Shift.apply, Value.rotateLeft, Value.rotateRight, apply_ite Value.bare]
    rfl

theorem bare_resize (mode : Resize) (v : Value) (ty : DataType) :
    mode.bare v.bare ty = result Value.bare (mode.apply v ty) := by
  cases mode with
  | cast => rfl
  | truncate =>
    change (if v.width < ty.width then _ else _) = result Value.bare (v.truncate ty)
    unfold Value.truncate
    split <;> rfl
  | zeroExtend =>
    change (if ty.width < v.width then _ else _) = result Value.bare (v.zeroExtend ty)
    unfold Value.zeroExtend
    split
    · rfl
    · rename_i wider
      have small := Nat.lt_of_lt_of_le v.pattern_lt (Bits.limit_mono (Nat.not_lt.mp wider))
      exact congrArg some (bare_wrap_of_lt small).symm
  | signExtend =>
    change (if ty.width < v.width then _ else some (encode ty v.signed)) =
      result Value.bare (v.signExtend ty)
    split
    · rename_i narrower
      rw [Value.signExtend, if_pos narrower]
      rfl
    · rename_i wider
      rw [Value.signExtend_eq (Nat.not_lt.mp wider)]
      obtain ⟨low, high⟩ := v.signed_bounds
      have more := Bits.limit_mono (Nat.not_lt.mp wider)
      exact congrArg some (bare_wrapInt (by omega) (by omega)).symm

theorem bare_addWithCarry (v w : Value) (carry : Bool) :
    result (·.result.bare) (v.addWithCarry w carry) =
      if v.bare.Numbers w.bare then
        some (cut v.ty (v.pattern + w.pattern + carry.toNat)) else none :=
  result_checked _

/-- A difference is the sum with the complement and one, which may exceed the width once. -/
theorem bare_subtract (v w : Value) :
    result (·.result.bare) (v.subtract w) =
      if v.bare.Numbers w.bare then
        some (cut v.ty (v.pattern + (w.bare.complement.number + 1))) else none := by
  refine (result_checked _).trans ?_
  split
  · rename_i numbers
    obtain ⟨sum, added, same⟩ :=
      result_eq_some_iff.mp ((bare_addWithCarry v w.negate false).trans (if_pos numbers))
    have limits : Bits.limit w.ty.width = Bits.limit v.ty.width :=
      congrArg Bits.limit numbers.2.2.symm
    rw [Value.add, added]
    refine congrArg some (same.trans (congrArg (Bare.mk v.ty) ?_))
    -- the negated operand is already cut, at the same width as the sum
    rw [← bare_complement]
    change (_ + (_ + 1) % Bits.limit w.ty.width + 0) % _ = _
    rw [limits, Nat.add_zero, Nat.add_mod_mod]
    rfl
  · rfl

/-- What is added to the complement. -/
def carryIn (sense : CarrySense) (flag : Bool) : Bool :=
  match sense with
  | .borrow => !flag
  | .carry => flag

theorem bare_subtractWith (v w : Value) (sense : CarrySense) (flag : Bool) :
    result (·.result.bare) (v.subtractWith w sense flag) =
      if v.bare.Numbers w.bare then
        some (cut v.ty (v.pattern + w.bare.complement.number + (carryIn sense flag).toNat))
      else none := by
  refine (result_checked _).trans ?_
  split
  · rename_i numbers
    have sum := (bare_addWithCarry v w.complement (carryIn sense flag)).trans (if_pos numbers)
    rw [← bare_complement]
    cases sense with
    | carry => exact sum
    | borrow =>
      obtain ⟨sum, added, same⟩ := result_eq_some_iff.mp sum
      exact (congrArg _ (congrArg (· >>= _) added)).trans (congrArg some same)
  · rfl

theorem bare_multiply (v w : Value) :
    result Value.bare (v.multiply w) =
      if v.bare.Numbers w.bare then some (cut v.ty (v.pattern * w.pattern)) else none :=
  result_checked _

/-- A quotient needs no cut: it is refused if its type does not hold it. -/
theorem bare_divide (v w : Value) (signed : Bool) :
    result Value.bare (v.divide w signed) =
      if v.bare.Numbers w.bare ∧ w.pattern ≠ 0 then
        ofInteger ((v.reading signed).tdiv (w.reading signed)) (.integer signed v.width)
      else none := by
  refine (result_division _).trans ?_
  rw [ofInteger_eq]
  cases Value.ofInteger ((v.reading signed).tdiv (w.reading signed)) (.integer signed v.width) <;>
    rfl

/-- Operations bit by bit cannot exceed the width of their operands. -/
theorem bare_paired {v w : Value} {operation : Operation} {n : Nat}
    (small : v.width = w.width → n < Bits.limit v.width) :
    result Value.bare (v.requireSameWidth operation w >>= fun _ => .ok (.wrap v.ty n)) =
      if v.width = w.width then some ⟨v.ty, n⟩ else none := by
  rw [result_check Value.requireSameWidth_eq_ok_iff]
  split
  · rename_i same
    exact congrArg some (bare_wrap_of_lt (small same))
  · rfl

theorem bare_compare (order : Order) (v w : Value) (signed : Bool) :
    result Value.bare (order.apply v w signed) =
      if v.width = w.width then
        some (truth (order.holds (v.reading signed) (w.reading signed))) else none := by
  cases order <;> exact result_check Value.requireSameWidth_eq_ok_iff _

theorem bare_equality {v w : Value} {operation : Operation} (b : Bool) :
    result Value.bare ((v.requireSameWidth operation w).map fun _ => .ofBool b) =
      if v.width = w.width then some (truth b) else none := by
  unfold Value.requireSameWidth
  split <;> rfl

/-- Every operator of two operands has the same outcome on values and on their bare patterns. -/
theorem bare_binary (op : BinaryOp) (v w : Value) :
    op.bare v.bare w.bare = result Value.bare (op.apply v w) := by
  have right (same : v.width = w.width) : w.pattern < Bits.limit v.width := same ▸ w.pattern_lt
  cases op with
  | add => exact ((result_map _ _).trans (bare_addWithCarry v w false)).symm
  | subtract => exact ((result_map _ _).trans (bare_subtract v w)).symm
  | multiply => exact (bare_multiply v w).symm
  | multiplyLong signed =>
    refine Eq.trans ?_ (result_checked (Value.ofInteger _ _)).symm
    rw [← ofInteger_eq]
    rfl
  | divide signed => exact (bare_divide v w signed).symm
  | modulo signed =>
    refine Eq.trans ?_ (result_division (Value.ofInteger _ _)).symm
    rw [← ofInteger_eq]
    rfl
  | and => exact (bare_paired fun _ => Nat.lt_of_le_of_lt Nat.and_le_left v.pattern_lt).symm
  | or => exact (bare_paired fun same => Bits.or_lt v.pattern_lt (right same)).symm
  | xor => exact (bare_paired fun same => Bits.xor_lt v.pattern_lt (right same)).symm
  | shift kind => exact congrArg some (bare_shift kind v _)
  | equal => exact (bare_equality (v.pattern == w.pattern)).symm
  | differ => exact (bare_equality !(v.pattern == w.pattern)).symm
  | compare order signed => exact (bare_compare order v w signed).symm

theorem bare_retag (v : Value) (ty : DataType) :
    v.bare.retag ty = result Value.bare (v.retag ty) := by
  change (if v.width = ty.width then _ else _) = _
  unfold Value.retag
  split <;> rfl

theorem bare_toBool (v : Value) : v.bare.toBool = result id v.toBool := by
  change (if v.width = 1 then _ else _) = _
  unfold Value.toBool
  split <;> rfl

/-- The high part stands beside the low part. -/
theorem bare_concat (high low : Value) : high.bare.concat low.bare = (high.concat low).bare := by
  refine (bare_wrap_of_lt ?_).symm
  have top := Bits.shiftLeft_lt high.pattern_lt low.width
  have bottom := Nat.lt_of_lt_of_le low.pattern_lt
    (Bits.limit_mono (Nat.le_add_left low.width high.width))
  exact Bits.or_lt top bottom

/-- The bits that a slice collects are at most as many as its size says. -/
theorem bare_slice (v : Value) (s : Slice) :
    v.bare.slice s = result Value.bare (v.slice s) := by
  change (if s.msb < v.width then _ else _) = _
  unfold Value.slice
  split
  · have small := Bits.ofList_lt (s.positions.map v.bit)
    rw [List.length_map, Slice.length_positions] at small
    exact congrArg some (bare_wrap_of_lt small).symm
  · rfl

theorem bare_extract (f : Field) (word : Value) :
    extract f word.bare = result Value.bare (f.extract word) := by
  by_cases inside : f.slice.msb < word.width
  · rw [Field.extract_eq_ok inside]
    exact if_pos inside
  · have failed : word.slice f.slice = Value.refuse (.sliceBeyond f.slice word) := if_neg inside
    rw [Field.extract, failed]
    exact if_neg inside

/-- Writing a field into a word stays below the width of the word. -/
theorem bare_scattered {f : Field} {word : Value} (v : Value) (inside : f.slice.msb < word.width) :
    (f.scattered word v).bare = ⟨word.ty, Bits.putAll word.pattern (f.placed v)⟩ := by
  refine bare_wrap_of_lt (Bits.putAll_lt word.pattern_lt ?_)
  rintro ⟨index, bit⟩ member
  exact Nat.lt_of_le_of_lt (Slice.le_msb_of_contains (Field.contains_of_placed member)) inside

theorem bare_insert (f : Field) (word v : Value) :
    insert f word.bare v.bare = result Value.bare (f.insert word v) := by
  by_cases fits : v.width = f.ty.width ∧ f.slice.msb < word.width
  · rw [Field.insert_eq_ok_iff.mpr ⟨fits.1, fits.2, rfl⟩, result_ok, bare_scattered v fits.2]
    exact if_pos fits
  · cases made : f.insert word v with
    | error err => exact if_neg fits
    | ok w =>
      obtain ⟨same, inside, _⟩ := Field.insert_eq_ok_iff.mp made
      exact absurd ⟨same, inside⟩ fits

end Bare

end MachineDescription
