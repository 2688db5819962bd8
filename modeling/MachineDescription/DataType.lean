import MachineDescription.Numeral

namespace MachineDescription

/-- The type of a scalar value: a truth value, or a bit pattern of a fixed width. `bits`, `sint` and
`uint` share one storage and differ in how the pattern is read as an integer. A width of zero is
legal. -/
inductive DataType where
  | bool
  | bits (width : Nat)
  | sint (width : Nat)
  | uint (width : Nat)
  deriving DecidableEq, Repr

namespace DataType

def width : DataType → Nat
  | bool => 1
  | bits width | sint width | uint width => width

/-- Only `sint` patterns are read in two's complement. -/
def isSigned : DataType → Bool
  | sint _ => true
  | _ => false

def isBool : DataType → Bool
  | bool => true
  | _ => false

def toBits (ty : DataType) : DataType :=
  bits ty.width

/-- The type of the given width that reads patterns the same way. One bit of a truth value is a
truth value; at any other width it becomes a plain pattern. -/
def withWidth (ty : DataType) (width : Nat) : DataType :=
  match ty with
  | bool => if width = 1 then bool else bits width
  | bits _ => bits width
  | sint _ => sint width
  | uint _ => uint width

/-- Two types share their patterns when their widths agree. A value can then be retagged. -/
def sameWidth (ty other : DataType) : Bool :=
  ty.width == other.width

def integer (signed : Bool) (width : Nat) : DataType :=
  if signed then sint width else uint width

/-- Fewest bits of an index that can be as large as `n`; an index has at least one bit. -/
def indexWidth (n : Nat) : Nat :=
  if n = 0 then 1 else bitLength n

def render : DataType → String
  | bool => "Bool"
  | bits width => s!"Bits<{width}>"
  | sint width => s!"SInt<{width}>"
  | uint width => s!"UInt<{width}>"

instance : ToString DataType := ⟨render⟩

@[simp]
theorem width_toBits (ty : DataType) : ty.toBits.width = ty.width := rfl

@[simp]
theorem width_integer (signed : Bool) (width : Nat) : (integer signed width).width = width := by
  cases signed <;> rfl

theorem sameWidth_iff {ty other : DataType} :
    ty.sameWidth other = true ↔ ty.width = other.width := by
  simp [sameWidth]

end DataType

/-- The type of an access to a resource: those of the address, and that of the element. -/
structure Relation where
  args : List DataType
  result : DataType
  deriving DecidableEq, Repr

namespace Relation

def render (relation : Relation) : String :=
  "(" ++ ", ".intercalate (relation.args.map DataType.render) ++ ") -> " ++ relation.result.render

instance : ToString Relation := ⟨render⟩

end Relation

end MachineDescription
