import MachineDescription.Error.Basic

namespace MachineDescription.Value

def refuse {α : Type} (fault : ValueFault) : Except Error α :=
  .error (.of (.value fault))

/-- Bits of a plain pattern for an integer. One that is not negative needs no sign bit. -/
def requiredBits (n : Int) : Nat :=
  if n < 0 then bitLength (-n - 1).toNat + 1 else bitLength n.toNat

/-- The value of a type for an integer. Every integer but zero is true. A plain pattern holds the
signed and the unsigned integers of its width. -/
def ofInteger (n : Int) (ty : DataType) : Except Error Value :=
  match ty with
  | .bool => .ok (ofBool (n ≠ 0))
  | .bits width => if requiredBits n ≤ width then .ok (wrapInt ty n) else refuse (.noPattern n ty)
  | .sint width | .uint width =>
    let least := (minimum ty).integer
    let greatest := (maximum ty).integer
    if 0 < width ∧ least ≤ n ∧ n ≤ greatest then .ok (wrapInt ty n)
    else refuse (.outside n ty least greatest)

def ofPattern (pattern : Nat) (ty : DataType) : Except Error Value :=
  if fits : bitLength pattern ≤ ty.width then
    .ok ⟨ty, pattern, Nat.lt_of_lt_of_le (lt_limit_bitLength pattern)
      (Bits.limit_mono fits)⟩
  else refuse (.patternTooWide pattern ty)

def one (ty : DataType) : Except Error Value :=
  ofInteger 1 ty

def toBool (v : Value) : Except Error Bool :=
  if v.width = 1 then .ok !v.isZero else refuse (.notBoolean v)

/-- The same pattern under a type of the same width. -/
def retag (v : Value) (ty : DataType) : Except Error Value :=
  if same : v.width = ty.width then .ok ⟨ty, v.pattern, same ▸ v.pattern_lt⟩
  else refuse (.cannotRetag v ty)

def toBits (v : Value) : Value :=
  ⟨v.ty.toBits, v.pattern, v.pattern_lt⟩

/-- The pattern under another type, cut to its width or filled with zeros. -/
def cast (v : Value) (ty : DataType) : Value :=
  wrap ty v.pattern

/-- Refuse truth values and empty patterns. -/
def requireNumber (operation : Operation) (v : Value) : Except Error Unit :=
  if v.ty.isBool ∨ v.width = 0 then refuse (.undefinedFor operation v) else .ok ()

def requireSameWidth (operation : Operation) (v w : Value) : Except Error Unit :=
  if v.width = w.width then .ok () else refuse (.widthsDiffer operation v w)

end MachineDescription.Value
