import MachineDescription.Error.Kind
import MachineDescription.Name

namespace MachineDescription

/-- The special registers of a calling convention. -/
inductive PointerRole where
  | returnAddress
  | stackPointer
  | framePointer
  | globalPointer
  | threadPointer
  deriving DecidableEq, Repr

namespace PointerRole

def label : PointerRole → String
  | returnAddress => "return address"
  | stackPointer => "stack pointer"
  | framePointer => "frame pointer"
  | globalPointer => "global pointer"
  | threadPointer => "thread pointer"

def abbreviation : PointerRole → String
  | returnAddress => "ra"
  | stackPointer => "sp"
  | framePointer => "fp"
  | globalPointer => "gp"
  | threadPointer => "tp"

def all : List PointerRole :=
  [returnAddress, stackPointer, framePointer, globalPointer, threadPointer]

end PointerRole

/-- Why a register or a part of a calling convention is refused. Registers stand here by the text
that shows them. -/
inductive ConventionFault where
  | notFile (file : Name) (index : Nat)
  | indexBeyondFile (file : Name) (size index : Nat)
  | pointerTwice (role : PointerRole) (bound rejected : String)
  | aliasTwice (label : String) (holder rejected : String)
  | noPointer (role : PointerRole)

namespace ConventionFault

def kind : ConventionFault → ErrorKind
  | notFile .. | noPointer _ => .shape
  | indexBeyondFile .. => .range
  | pointerTwice .. | aliasTwice .. => .doubleBinding

def message : ConventionFault → String
  | notFile file _ => s!"'{file}' is not a register file"
  | indexBeyondFile file size index =>
    s!"register file '{file}' has {size} elements, index {index} is out of range"
  | pointerTwice role _ _ => s!"{role.label} is already assigned"
  | aliasTwice label holder _ => s!"alias '{label}' already names {holder}"
  | noPointer role => s!"abi does not define a {role.label}"

def subjects : ConventionFault → List (String × String)
  | notFile _ index | indexBeyondFile _ _ index => [("index", toString index)]
  | pointerTwice _ bound rejected => [("bound", bound), ("rejected", rejected)]
  | aliasTwice _ _ rejected => [("rejected", rejected)]
  | noPointer _ => []

end ConventionFault

end MachineDescription
