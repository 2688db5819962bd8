import MachineDescription.Value.Convert

namespace MachineDescription.Constant

def refuse {α : Type} (fault : ConstantFault) : Except Error α :=
  .error (.of (.constant fault))

def toValue : Constant → Except Error Value
  | value v => .ok v
  | c => refuse (.notScalar c)

def toElements : Constant → Except Error (List Constant)
  | tuple elements => .ok elements
  | c => refuse (.notTuple c)

/-- The tuple of the given elements, if it has the declared type. -/
def ofElements (elements : List Constant) (declared : List ConstantType) :
    Except Error Constant :=
  if (tuple elements).type.same (.tuple declared) then .ok (tuple elements)
  else refuse (.declaredOtherwise elements declared)

def element (elements : List Constant) (index : Nat) : Except Error Constant :=
  match elements[index]? with
  | some c => .ok c
  | none => refuse (.noElement index elements)

def elementValue (elements : List Constant) (index : Nat) : Except Error Value := do
  (← element elements index).toValue

/-- The condition flags in a tuple of four truth values. -/
def toFlags (elements : List Constant) : Except Error Flags :=
  match elements with
  | [value zero, value carry, value overflow, value negative] =>
    if zero.ty.isBool && carry.ty.isBool && overflow.ty.isBool && negative.ty.isBool then
      .ok ⟨!zero.isZero, !carry.isZero, !overflow.isZero, !negative.isZero⟩
    else refuse (.notStatus elements)
  | _ => refuse (.notStatus elements)

end MachineDescription.Constant
