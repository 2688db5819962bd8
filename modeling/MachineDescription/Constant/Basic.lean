import MachineDescription.Error.Kind
import MachineDescription.Slice.Basic
import MachineDescription.Text
import MachineDescription.Value.Basic
import MachineDescription.Value.Render

namespace MachineDescription

/-- The type of a constant. That of a tuple lists the types of its elements. -/
inductive ConstantType where
  | data (ty : DataType)
  | tuple (elements : List ConstantType)
  | slice
  | text

namespace ConstantType

def data? : ConstantType → Option DataType
  | data ty => some ty
  | _ => none

def elements? : ConstantType → Option (List ConstantType)
  | tuple elements => some elements
  | _ => none

mutual

def same : ConstantType → ConstantType → Bool
  | data ty, data other => ty == other
  | tuple elements, tuple others => sameAll elements others
  | slice, slice => true
  | text, text => true
  | _, _ => false

def sameAll : List ConstantType → List ConstantType → Bool
  | [], [] => true
  | ty :: elements, other :: others => ty.same other && sameAll elements others
  | _, _ => false

end

mutual

def render : ConstantType → String
  | data ty => ty.render
  | tuple elements => "(" ++ ", ".intercalate (renderAll elements) ++ ")"
  | slice => "BitSlice"
  | text => "String"

def renderAll : List ConstantType → List String
  | [] => []
  | ty :: elements => ty.render :: renderAll elements

end

instance : ToString ConstantType := ⟨render⟩

/-- The type of condition flags: four truth values. -/
def status : ConstantType :=
  tuple [data .bool, data .bool, data .bool, data .bool]

end ConstantType

/-- A value, a tuple of constants, a slice or a text. -/
inductive Constant where
  | value (v : Value)
  | tuple (elements : List Constant)
  | slice (s : Slice)
  | text (content : String)

namespace Constant

mutual

/-- The type of a constant; that of a tuple is made of the types of its elements. -/
def type : Constant → ConstantType
  | value v => .data v.ty
  | tuple elements => .tuple (typeAll elements)
  | slice _ => .slice
  | text _ => .text

def typeAll : List Constant → List ConstantType
  | [] => []
  | c :: elements => c.type :: typeAll elements

end

mutual

def same : Constant → Constant → Bool
  | value v, value w => v == w
  | tuple elements, tuple others => sameAll elements others
  | slice s, slice t => s == t
  | text content, text other => content == other
  | _, _ => false

def sameAll : List Constant → List Constant → Bool
  | [], [] => true
  | c :: elements, other :: others => c.same other && sameAll elements others
  | _, _ => false

end

mutual

def render : Constant → String
  | value v => v.render
  | tuple elements => "(" ++ ", ".intercalate (renderAll elements) ++ ")"
  | slice s => s.render
  | text content => Text.quote content

def renderAll : List Constant → List String
  | [] => []
  | c :: elements => c.render :: renderAll elements

end

instance : ToString Constant := ⟨render⟩

/-- The condition flags as a tuple of zero, carry, overflow and negative. -/
def status (flags : Flags) : Constant :=
  tuple ([flags.zero, flags.carry, flags.overflow, flags.negative].map (value ∘ Value.ofBool))

end Constant

/-- Why a constant is refused. A tuple stands here as the list of its elements. -/
inductive ConstantFault where
  | notScalar (c : Constant)
  | notTuple (c : Constant)
  | declaredOtherwise (elements : List Constant) (declared : List ConstantType)
  | noElement (index : Nat) (elements : List Constant)
  | notStatus (elements : List Constant)

namespace ConstantFault

def kind : ConstantFault → ErrorKind
  | noElement .. => .shape
  | notScalar _ | notTuple _ | declaredOtherwise .. | notStatus _ => .typeMismatch

def message : ConstantFault → String
  | notScalar c => s!"expected a scalar constant, found {c.type}"
  | notTuple c => s!"expected a tuple constant, found {c.type}"
  | declaredOtherwise elements declared =>
    let actual := (Constant.tuple elements).type
    let wanted := ConstantType.tuple declared
    s!"tuple elements have type {actual} but {wanted} was declared"
  | noElement index elements =>
    s!"tuple index {index} is out of bounds for arity {elements.length}"
  | notStatus elements =>
    let actual := (Constant.tuple elements).type
    s!"expected a status tuple, found {actual}"

def subjects : ConstantFault → List (String × String)
  | notScalar c | notTuple c => [("constant", c.render)]
  | declaredOtherwise elements _ | noElement _ elements | notStatus elements =>
    [("tuple", (Constant.tuple elements).render)]

end ConstantFault

end MachineDescription
