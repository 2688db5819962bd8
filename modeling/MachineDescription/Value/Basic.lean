import MachineDescription.Bits
import MachineDescription.DataType

namespace MachineDescription

/-- A bit pattern of exactly the width of its type. The integer that it denotes is read from the
pattern: `signed` and `unsigned` read it regardless of the type, `integer` as the type says. -/
structure Value where
  ty : DataType
  pattern : Nat
  pattern_lt : pattern < Bits.limit ty.width

namespace Value

theorem ext {v w : Value} (type : v.ty = w.ty) (bits : v.pattern = w.pattern) : v = w := by
  cases v; cases w; cases type; cases bits; rfl

instance : DecidableEq Value := fun v w =>
  if same : v.ty = w.ty ∧ v.pattern = w.pattern then isTrue (ext same.1 same.2)
  else isFalse (fun equal => same (by cases equal; exact ⟨rfl, rfl⟩))

abbrev width (v : Value) : Nat :=
  v.ty.width

/-- The value of a type whose pattern is `n` reduced to the width of the type. -/
def wrap (ty : DataType) (n : Nat) : Value :=
  ⟨ty, n % Bits.limit ty.width, Nat.mod_lt _ (Bits.limit_pos _)⟩

/-- The value of a type whose pattern is the two's complement of `n` at the width of the type. -/
def wrapInt (ty : DataType) (n : Int) : Value :=
  ⟨ty, Bits.twosComplement n ty.width, Bits.twosComplement_lt n _⟩

def ofBool (b : Bool) : Value :=
  ⟨.bool, b.toNat, b.toNat_lt⟩

def zero (ty : DataType) : Value :=
  ⟨ty, 0, Bits.limit_pos _⟩

/-- The largest value of a type; a plain pattern counts as unsigned. -/
def maximum (ty : DataType) : Value :=
  if ty.isSigned then wrap ty (Bits.ones (ty.width - 1)) else wrap ty (Bits.ones ty.width)

def minimum (ty : DataType) : Value :=
  if ty.isSigned ∧ 0 < ty.width then wrap ty (Bits.limit (ty.width - 1)) else zero ty

/-- The bit at an index; there is none beyond the width. -/
def bit (v : Value) (index : Nat) : Bool :=
  v.pattern.testBit index

def signBit (v : Value) : Bool :=
  0 < v.width && v.bit (v.width - 1)

def isZero (v : Value) : Bool :=
  v.pattern == 0

def unsigned (v : Value) : Int :=
  v.pattern

/-- The pattern read in two's complement. -/
def signed (v : Value) : Int :=
  if v.signBit then v.pattern - Bits.limit v.width else v.pattern

def reading (v : Value) (isSigned : Bool) : Int :=
  if isSigned then v.signed else v.unsigned

/-- The integer that the value denotes under its type. -/
def integer (v : Value) : Int :=
  v.reading v.ty.isSigned

/-- The integer, if a signed number of 64 bits can hold it. -/
def signed64? (v : Value) : Option Int :=
  if -Bits.limit 63 ≤ v.integer ∧ v.integer < Bits.limit 63 then some v.integer else none

def unsigned64? (v : Value) : Option Nat :=
  if v.pattern < Bits.limit 64 then some v.pattern else none

/-- Two values with the same pattern, whatever their types. -/
def samePattern (v w : Value) : Bool :=
  v.pattern == w.pattern

@[simp]
theorem ty_wrap (ty : DataType) (n : Nat) : (wrap ty n).ty = ty := rfl

@[simp]
theorem pattern_wrap (ty : DataType) (n : Nat) :
    (wrap ty n).pattern = n % Bits.limit ty.width :=
  rfl

@[simp]
theorem ty_wrapInt (ty : DataType) (n : Int) : (wrapInt ty n).ty = ty := rfl

@[simp]
theorem pattern_wrapInt (ty : DataType) (n : Int) :
    (wrapInt ty n).pattern = (n % Bits.limit ty.width).toNat :=
  Bits.twosComplement_eq n ty.width

@[simp]
theorem wrap_pattern (v : Value) : wrap v.ty v.pattern = v :=
  ext rfl (Nat.mod_eq_of_lt v.pattern_lt)

end Value

/-- Condition flags: the result is zero; the unsigned sum has more bits than the operands, or a
difference had or had no borrow; the signed result does not fit; the top bit of the result is set.
-/
structure Flags where
  zero : Bool
  carry : Bool
  overflow : Bool
  negative : Bool
  deriving DecidableEq, Repr

end MachineDescription
