import MachineDescription.Value.Convert

namespace MachineDescription.Value

def and (v w : Value) : Except Error Value := do
  v.requireSameWidth .bitwiseAnd w
  return wrap v.ty (v.pattern &&& w.pattern)

def or (v w : Value) : Except Error Value := do
  v.requireSameWidth .bitwiseOr w
  return wrap v.ty (v.pattern ||| w.pattern)

def xor (v w : Value) : Except Error Value := do
  v.requireSameWidth .bitwiseXor w
  return wrap v.ty (v.pattern ^^^ w.pattern)

/-- A shift by the width or more clears the value. -/
def shiftLeft (v : Value) (amount : Nat) : Value :=
  if v.width ≤ amount then zero v.ty else wrap v.ty (v.pattern <<< amount)

/-- An amount modulo the width; there is nothing to move in an empty pattern. -/
def reduceAmount (v : Value) (amount : Nat) : Nat :=
  if v.width = 0 then 0 else amount % v.width

/-- The amount of this shift counts modulo the width, as for a rotation. -/
def shiftRight (v : Value) (amount : Nat) : Value :=
  wrap v.ty (v.pattern >>> v.reduceAmount amount)

/-- Shift right, filling with the sign bit; the amount counts up to the width. -/
def shiftRightSigned (v : Value) (amount : Nat) : Value :=
  let n := min amount v.width
  let fill := if v.signBit then Bits.ones v.width ^^^ (Bits.ones v.width >>> n) else 0
  wrap v.ty ((v.pattern >>> n) ||| fill)

/-- Move every bit up, and those that leave at the top in at the bottom. -/
def rotateLeft (v : Value) (amount : Nat) : Value :=
  let n := v.reduceAmount amount
  if n = 0 then v else wrap v.ty ((v.pattern <<< n) ||| (v.pattern >>> (v.width - n)))

def rotateRight (v : Value) (amount : Nat) : Value :=
  let n := v.reduceAmount amount
  if n = 0 then v else wrap v.ty ((v.pattern >>> n) ||| (v.pattern <<< (v.width - n)))

def lt (v w : Value) (signed : Bool) : Except Error Value := do
  v.requireSameWidth .comparison w
  return ofBool (v.reading signed < w.reading signed)

def le (v w : Value) (signed : Bool) : Except Error Value := do
  v.requireSameWidth .comparison w
  return ofBool (v.reading signed ≤ w.reading signed)

def gt (v w : Value) (signed : Bool) : Except Error Value := do
  v.requireSameWidth .comparison w
  return ofBool (v.reading signed > w.reading signed)

def ge (v w : Value) (signed : Bool) : Except Error Value := do
  v.requireSameWidth .comparison w
  return ofBool (v.reading signed ≥ w.reading signed)

def truncate (v : Value) (ty : DataType) : Except Error Value :=
  if v.width < ty.width then refuse (.truncateToWider v ty) else .ok (wrap ty v.pattern)

def zeroExtend (v : Value) (ty : DataType) : Except Error Value :=
  if ty.width < v.width then refuse (.extendToNarrower .zero v ty) else .ok (wrap ty v.pattern)

def signExtend (v : Value) (ty : DataType) : Except Error Value :=
  if ty.width < v.width then refuse (.extendToNarrower .sign v ty) else
    let fill := if v.signBit then Bits.ones ty.width ^^^ Bits.ones v.width else 0
    .ok (wrap ty (v.pattern ||| fill))

/-- The left value above the right one. -/
def concat (high low : Value) : Value :=
  wrap (.bits (high.width + low.width)) ((high.pattern <<< low.width) ||| low.pattern)

/-- The bits at the indices of a slice, its first range on top. -/
def slice (v : Value) (s : Slice) : Except Error Value :=
  if s.msb < v.width then .ok (wrap (.bits s.size) (Bits.ofList (s.positions.map v.bit)))
  else refuse (.sliceBeyond s v)

end MachineDescription.Value
