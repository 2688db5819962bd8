import MachineDescription.Error.Kind
import MachineDescription.Slice.Basic
import MachineDescription.Value.Render

namespace MachineDescription

inductive Operation where
  | addition
  | subtraction
  | multiplication
  | division
  | modulo
  | bitwiseAnd
  | bitwiseOr
  | bitwiseXor
  | comparison
  | equality
  | inequality
  deriving DecidableEq, Repr

namespace Operation

def label : Operation → String
  | addition => "addition"
  | subtraction => "subtraction"
  | multiplication => "multiplication"
  | division => "division"
  | modulo => "modulo"
  | bitwiseAnd => "bitwise and"
  | bitwiseOr => "bitwise or"
  | bitwiseXor => "bitwise xor"
  | comparison => "comparison"
  | equality => "equality"
  | inequality => "inequality"

instance : ToString Operation := ⟨label⟩

end Operation

inductive Extension where
  | zero
  | sign
  deriving DecidableEq, Repr

namespace Extension

def label : Extension → String
  | zero => "zero extend"
  | sign => "sign extend"

instance : ToString Extension := ⟨label⟩

end Extension

/-- Why an operation on values is refused, with its operands. -/
inductive ValueFault where
  /-- The integer is no plain pattern of the type. -/
  | noPattern (integer : Int) (ty : DataType)
  | outside (integer : Int) (ty : DataType) (least greatest : Int)
  | patternTooWide (pattern : Nat) (ty : DataType)
  | notBoolean (v : Value)
  | cannotRetag (v : Value) (ty : DataType)
  | undefinedFor (operation : Operation) (v : Value)
  | widthsDiffer (operation : Operation) (lhs rhs : Value)
  | notOfNumber (v : Value)
  | byZero (operation : Operation) (lhs rhs : Value)
  | quotientOverflow (lhs rhs : Value)
  | truncateToWider (v : Value) (ty : DataType)
  | extendToNarrower (extension : Extension) (v : Value) (ty : DataType)
  | sliceBeyond (slice : Slice) (v : Value)

namespace ValueFault

def kind : ValueFault → ErrorKind
  | noPattern .. | outside .. | patternTooWide .. => .range
  | notBoolean .. | cannotRetag .. | widthsDiffer .. | truncateToWider .. | extendToNarrower .. =>
    .typeMismatch
  | undefinedFor .. | notOfNumber .. => .unsupported
  | byZero .. | quotientOverflow .. => .evaluation
  | sliceBeyond .. => .shape

def message : ValueFault → String
  | noPattern integer ty => s!"value {integer} does not fit in type {ty}"
  | outside integer ty _ _ => s!"value {integer} does not fit in type {ty}"
  | patternTooWide pattern ty => s!"pattern {Numeral.hex pattern} is wider than {ty.width} bits"
  | notBoolean v => s!"constant of type {v.ty} is not a boolean"
  | cannotRetag v ty => s!"trivial cast from {v.ty} to {ty} is not possible"
  | undefinedFor operation v => s!"{operation} is not defined for type {v.ty}"
  | widthsDiffer operation lhs rhs =>
    s!"{operation} requires operands of the same width, got {lhs.ty} and {rhs.ty}"
  | notOfNumber v => s!"logical not is only defined for Bool, got {v.ty}"
  | byZero operation _ _ => s!"{operation} by zero"
  | quotientOverflow _ _ => "signed division overflows its result type"
  | truncateToWider v ty => s!"cannot truncate {v.ty} to the wider type {ty}"
  | extendToNarrower extension v ty => s!"cannot {extension} {v.ty} to the narrower type {ty}"
  | sliceBeyond slice v => s!"slice {slice} reaches beyond the {v.width} bits of {v.ty}"

def subjects : ValueFault → List (String × String)
  | noPattern integer ty => [("value", toString integer), ("type", ty.render)]
  | outside integer ty least greatest =>
    [("value", toString integer), ("type", ty.render), ("range", s!"{least} .. {greatest}")]
  | patternTooWide pattern ty => [("pattern", Numeral.hex pattern), ("type", ty.render)]
  | notBoolean v | cannotRetag v _ | undefinedFor _ v | notOfNumber v | truncateToWider v _
  | extendToNarrower _ v _ | sliceBeyond _ v => [("constant", v.render)]
  | widthsDiffer _ lhs rhs | byZero _ lhs rhs | quotientOverflow lhs rhs =>
    [("lhs", lhs.render), ("rhs", rhs.render)]

end ValueFault

end MachineDescription
