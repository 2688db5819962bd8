import MachineDescription.Constant.Basic
import MachineDescription.Convention.Role
import MachineDescription.Expr.Basic
import MachineDescription.Pattern.Basic
import MachineDescription.Resource.Kind
import MachineDescription.Value.Fault

namespace MachineDescription

/-- Why a text is no literal. -/
inductive LiteralFault where
  | empty
  | malformed (numeral : String)
  | negativeBinary
  deriving DecidableEq, Repr

namespace LiteralFault

def code : LiteralFault → String
  | empty => "literal.empty"
  | malformed _ => "literal.invalid-format"
  | negativeBinary => "literal.negative-not-supported"

def message : LiteralFault → String
  | empty => "literal is empty"
  | malformed numeral => s!"invalid literal format: {numeral}"
  | negativeBinary => "negative binary literals are not supported"

end LiteralFault

/-- Why a field, a field access or a member of a format is refused. -/
inductive FormatFault where
  | fieldWidth (ty : DataType) (slice : Slice)
  | beyondWord (field : Name) (slice : Slice) (width : Nat)
  | beyondFormat (label : String) (slice : Slice) (width : Nat)
  | declaredTwice (label : String) (format : Name)
  | targetCount (fields : List String)
  | unknownTarget (field : String)
  | decodeParameters (count : Nat)
  | encodeParameters (count : Nat)
  | encodeResult (result : DataType) (ty : DataType) (field : Name)
  | predicateShape

namespace FormatFault

def kind : FormatFault → ErrorKind
  | encodeResult .. | predicateShape => .typeMismatch
  | fieldWidth .. | beyondWord .. | beyondFormat .. | declaredTwice .. | targetCount _
  | unknownTarget _ | decodeParameters _ | encodeParameters _ => .shape

def message : FormatFault → String
  | fieldWidth ty slice =>
    s!"field type {ty} is {ty.width} bits wide but its bit slice {slice} covers {slice.size} bits"
  | beyondWord field slice width => s!"field {field} at {slice} does not fit a {width}-bit word"
  | beyondFormat label slice width => s!"field {label}{slice} exceeds the {width}-bit format"
  | declaredTwice label format => s!"'{label}' is declared more than once in format {format}"
  | targetCount fields =>
    s!"field access must reference exactly one format field, found {fields.length}"
  | unknownTarget field => s!"field access references unknown field '{field}'"
  | decodeParameters count => s!"decode function must not take parameters, takes {count}"
  | encodeParameters count => s!"encode function must take exactly one parameter, takes {count}"
  | encodeResult result ty _ =>
    s!"encode function returns {result} which cannot be cast to field type {ty}"
  | predicateShape => "predicate must take one parameter and return Bool"

def subjects : FormatFault → List (String × String)
  | fieldWidth _ slice => [("bit slice", slice.render)]
  | targetCount fields => [("fields", ", ".intercalate fields)]
  | encodeResult _ _ field => [("field", field.qualified)]
  | beyondWord .. | beyondFormat .. | declaredTwice .. | unknownTarget _ | decodeParameters _
  | encodeParameters _ | predicateShape => []

end FormatFault

/-- Why an encoding refuses a binding or an operand. -/
inductive EncodingFault where
  | noField (format : Name) (label : String)
  | boundTwice (label : String) (bound rejected : Value)
  | typeDiffers (label : String) (fieldType valueType : DataType)
  | bitConflict (label : String) (bit : Nat) (other : String) (bound rejected : Value)
  | notOperand (label : String) (format : Name)
  | operandMissing (field : String)

namespace EncodingFault

def kind : EncodingFault → ErrorKind
  | noField .. | notOperand .. | operandMissing _ => .shape
  | boundTwice .. | bitConflict .. => .doubleBinding
  | typeDiffers .. => .typeMismatch

def message : EncodingFault → String
  | noField format label => s!"format {format} has no field '{label}'"
  | boundTwice label _ _ => s!"field '{label}' is already encoded"
  | typeDiffers label fieldType valueType =>
    s!"field '{label}' has type {fieldType} but the encoded constant has type {valueType}"
  | bitConflict label bit other _ _ =>
    s!"field '{label}' fixes bit {bit} differently from field '{other}'"
  | notOperand label format => s!"'{label}' is not an operand field of {format}"
  | operandMissing field => s!"no operand supplied for field '{field}'"

def subjects : EncodingFault → List (String × String)
  | boundTwice _ bound rejected | bitConflict _ _ _ bound rejected =>
    [("bound", bound.render), ("rejected", rejected.render)]
  | noField .. | typeDiffers .. | notOperand .. | operandMissing _ => []

end EncodingFault

/-- Why an instruction set refuses a definition. -/
inductive InstructionSetFault where
  | definedTwice (definition owner : Name)
  | foreignFormat (format owner : Name)
  | unknownFormat (format : String)

namespace InstructionSetFault

def kind : InstructionSetFault → ErrorKind
  | definedTwice .. | foreignFormat .. | unknownFormat _ => .shape

def message : InstructionSetFault → String
  | definedTwice definition owner => s!"'{definition}' is defined more than once in {owner}"
  | foreignFormat format owner => s!"format {format} is not part of {owner}"
  | unknownFormat format => s!"unknown format '{format}'"

end InstructionSetFault

/-- What is at fault. A fault belongs to one kind of definition and carries the objects involved. -/
inductive Cause where
  | value (fault : ValueFault)
  | slice (fault : SliceFault)
  | constant (fault : ConstantFault)
  | literal (fault : LiteralFault)
  | expr (fault : ExprFault)
  | pattern (fault : PatternFault)
  | format (fault : FormatFault)
  | encoding (fault : EncodingFault)
  | resource (fault : ResourceFault)
  | convention (fault : ConventionFault)
  | instructionSet (fault : InstructionSetFault)
  /-- A cause that the caller words. -/
  | stated (kind : ErrorKind) (message : String)

namespace Cause

def kind : Cause → ErrorKind
  | value fault => fault.kind
  | slice fault => fault.kind
  | constant fault => fault.kind
  | literal _ => .literal
  | expr fault => fault.kind
  | pattern fault => fault.kind
  | format fault => fault.kind
  | encoding fault => fault.kind
  | resource fault => fault.kind
  | convention fault => fault.kind
  | instructionSet fault => fault.kind
  | stated kind _ => kind

def message : Cause → String
  | value fault => fault.message
  | slice fault => fault.message
  | constant fault => fault.message
  | literal fault => fault.message
  | expr fault => fault.message
  | pattern fault => fault.message
  | format fault => fault.message
  | encoding fault => fault.message
  | resource fault => fault.message
  | convention fault => fault.message
  | instructionSet fault => fault.message
  | stated _ message => message

/-- The objects involved, as far as the cause knows them. -/
def subjects : Cause → List (String × String)
  | value fault => fault.subjects
  | slice fault => fault.subjects
  | constant fault => fault.subjects
  | format fault => fault.subjects
  | encoding fault => fault.subjects
  | resource fault => fault.subjects
  | convention fault => fault.subjects
  | literal _ | expr _ | pattern _ | instructionSet _ | stated _ _ => []

end Cause

end MachineDescription
