import MachineDescription.Value.Convert

namespace MachineDescription

/-- A result with the condition flags that it sets, as the arithmetic unit of a processor does. -/
structure Flagged where
  result : Value
  flags : Flags

namespace Flagged

def toConstant (sum : Flagged) : Constant :=
  .tuple [.value sum.result, .status sum.flags]

end Flagged

/-- What the carry flag means to a subtraction. -/
inductive CarrySense where
  /-- The flag is a borrow, on the way in and on the way out. -/
  | borrow
  /-- The flag is the carry of the addition of the complement. -/
  | carry
  deriving DecidableEq, Repr

namespace Value

/-- The sum has the type of the left operand. The carry flag says that the unsigned sum has more
bits than the operands, the overflow flag that the signed sum does not fit. -/
def addWithCarry (v w : Value) (carry : Bool) : Except Error Flagged := do
  v.requireNumber .addition
  v.requireSameWidth .addition w
  let sum := v.pattern + w.pattern + carry.toNat
  let result := wrap v.ty sum
  return ⟨result, {
    zero := result.isZero
    carry := decide (Bits.limit v.width ≤ sum)
    overflow := v.signBit == w.signBit && v.signBit != result.signBit
    negative := result.signBit }⟩

def add (v w : Value) : Except Error Flagged :=
  v.addWithCarry w false

def complement (v : Value) : Value :=
  ⟨v.ty, Bits.ones v.width - v.pattern, by
    have := Bits.limit_pos v.ty.width
    simp only [Bits.ones, width]
    omega⟩

/-- The two's complement. The smallest signed pattern is its own. -/
def negate (v : Value) : Value :=
  wrap v.ty (v.complement.pattern + 1)

/-- The difference, as the sum with the negated right operand. The carry flag is turned, and so is
the overflow flag if the right operand is the smallest signed pattern, which negation keeps. -/
def subtract (v w : Value) : Except Error Flagged := do
  v.requireNumber .subtraction
  v.requireSameWidth .subtraction w
  let sum ← v.add w.negate
  let least := w.pattern == (minimum (.sint w.width)).pattern
  return { sum with
    flags := { sum.flags with carry := !sum.flags.carry, overflow := sum.flags.overflow != least } }

/-- The difference of two values and a carry or borrow, as the sum with the complement. -/
def subtractWith (v w : Value) (sense : CarrySense) (flag : Bool) : Except Error Flagged := do
  v.requireNumber .subtraction
  v.requireSameWidth .subtraction w
  match sense with
  | .borrow =>
    let sum ← v.addWithCarry w.complement !flag
    return { sum with flags := { sum.flags with carry := !sum.flags.carry } }
  | .carry => v.addWithCarry w.complement flag

def not (v : Value) : Except Error Value :=
  if v.ty.isBool then .ok (ofBool v.isZero) else refuse (.notOfNumber v)

/-- The product, cut to the width of the operands. -/
def multiply (v w : Value) : Except Error Value := do
  v.requireNumber .multiplication
  v.requireSameWidth .multiplication w
  return wrap v.ty (v.pattern * w.pattern)

def multiplyLong (v w : Value) (signed : Bool) : Except Error Value := do
  v.requireNumber .multiplication
  v.requireSameWidth .multiplication w
  ofInteger (v.reading signed * w.reading signed) (.integer signed (2 * v.width))

def requireDivision (operation : Operation) (v w : Value) : Except Error Unit := do
  v.requireNumber operation
  v.requireSameWidth operation w
  if w.isZero then refuse (.byZero operation v w)

/-- The quotient, rounded toward zero. The least integer has no quotient by minus one. -/
def divide (v w : Value) (signed : Bool) : Except Error Value := do
  v.requireDivision .division w
  match ofInteger ((v.reading signed).tdiv (w.reading signed)) (.integer signed v.width) with
  | .ok quotient => return quotient
  | .error _ => refuse (.quotientOverflow v w)

/-- The remainder of the division toward zero; it has the sign of the dividend. -/
def modulo (v w : Value) (signed : Bool) : Except Error Value := do
  v.requireDivision .modulo w
  ofInteger ((v.reading signed).tmod (w.reading signed)) (.integer signed v.width)

end Value

end MachineDescription
