import MachineDescription.Error.Kind
import MachineDescription.Name
import MachineDescription.Value.Render

namespace MachineDescription

inductive ResourceKind where
  | signal
  | register
  | registerFile
  | registerTensor
  | memory
  | artificial
  deriving DecidableEq, Repr

namespace ResourceKind

def label : ResourceKind → String
  | signal => "signal"
  | register => "register"
  | registerFile => "register file"
  | registerTensor => "register tensor"
  | memory => "memory"
  | artificial => "artificial resource"

end ResourceKind

inductive CounterKind where
  | program
  | group
  deriving DecidableEq, Repr

namespace CounterKind

def label : CounterKind → String
  | program => "program counter"
  | group => "group counter"

end CounterKind

/-- Which instruction a counter refers to, seen from the one that executes. -/
inductive CounterPosition where
  | current
  | next
  | nextNext
  deriving DecidableEq, Repr

namespace CounterPosition

def all : List CounterPosition :=
  [current, next, nextNext]

def label : CounterPosition → String
  | current => "current"
  | next => "next"
  | nextNext => "nextnext"

end CounterPosition

/-- The places of an artificial resource where a type is given twice. -/
inductive Terminal where
  | readResult
  | writeValue
  | readAddress
  | writeAddress
  deriving DecidableEq, Repr

namespace Terminal

def label : Terminal → String
  | readResult => "read result"
  | writeValue => "write value"
  | readAddress => "read address"
  | writeAddress => "write address"

end Terminal

/-- Why a resource or an access to it is refused. -/
inductive ResourceFault where
  | memoryOfBool (address word : DataType)
  | tooManyProvided (provided max : Nat)
  | emptyDimension (position : Nat) (ty : DataType)
  | narrowIndex (position : Nat) (ty : DataType) (size required : Nat)
  | noDimensions
  | elementTooWide (size : Nat)
  | addressTooWide (ty : DataType)
  | resultTooWide
  | tooManyIndices (max given : Nat)
  | indexType (position : Nat) (ty given : DataType)
  | constraintIndex (index : Value) (position size : Nat)
  | constraintValue (ty expected : DataType)
  | namesNeedFile
  | counterShape (kind : CounterKind) (register : Name) (dimensions : Nat)
  | counterFile (file : Name)
  | counterIndex (ty address : DataType)
  | readParameters (expected given : Nat)
  | writeParameters (expected given : Nat)
  | terminalType (terminal : Terminal) (actual expected : DataType)

namespace ResourceFault

def kind : ResourceFault → ErrorKind
  | memoryOfBool .. | indexType .. | constraintValue .. | counterIndex .. | terminalType .. =>
    .typeMismatch
  | constraintIndex .. => .range
  | namesNeedFile => .unsupported
  | tooManyProvided .. | emptyDimension .. | narrowIndex .. | noDimensions | elementTooWide _
  | addressTooWide _ | resultTooWide | tooManyIndices .. | counterShape .. | counterFile _
  | readParameters .. | writeParameters .. => .shape

def message : ResourceFault → String
  | memoryOfBool address word => s!"memory must use bits types, got {address} -> {word}"
  | tooManyProvided provided max => s!"{provided} indices provided, at most {max} are allowed"
  | emptyDimension position _ => s!"dimension {position} must have at least one element"
  | narrowIndex position ty size _ =>
    s!"index type {ty} cannot address {size} elements of dimension {position}"
  | noDimensions => "register tensor requires at least one dimension"
  | elementTooWide size => s!"element width {size} exceeds the supported range"
  | addressTooWide ty => s!"address type {ty} is too wide for a register file"
  | resultTooWide => "result width exceeds the supported range"
  | tooManyIndices max given => s!"too many indices provided, max is {max}, got {given}"
  | indexType position ty given =>
    s!"index type {given} does not match {ty} of dimension {position}"
  | constraintIndex index position size =>
    s!"constraint index {index} exceeds dimension {position} of size {size}"
  | constraintValue ty expected =>
    s!"constraint value type {ty} cannot be cast to result type {expected}"
  | namesNeedFile => "register names can only be generated for register files"
  | counterShape kind register dimensions =>
    s!"{kind.label} must be a single register, '{register}' has {dimensions} dimensions"
  | counterFile file => s!"'{file}' is not a register file"
  | counterIndex ty address =>
    s!"index type {ty} does not match register file address type {address}"
  | readParameters expected given =>
    s!"read function must take {expected} parameter(s), takes {given}"
  | writeParameters expected given =>
    s!"write procedure must take {expected} parameter(s), takes {given}"
  | terminalType terminal actual expected =>
    s!"{terminal.label} type {actual} cannot be cast to {expected}"

def subjects : ResourceFault → List (String × String)
  | emptyDimension _ ty => [("index type", ty.render)]
  | narrowIndex _ _ _ required => [("required width", toString required)]
  | _ => []

end ResourceFault

end MachineDescription
