import MachineDescription.InstructionSet.Definition

namespace MachineDescription

/-- Definitions in the order of their registration. A definition is found under the text of its
qualified name, and a name that is taken is refused. An instruction needs a format that has been
registered before. -/
structure InstructionSet where
  name : Name
  definitions : List Definition

namespace InstructionSet

def empty (name : Name) : InstructionSet :=
  ⟨name, []⟩

/-- The definition that is registered under a qualified name. -/
def definition? (s : InstructionSet) (name : String) : Option Definition :=
  s.definitions.find? (·.name.qualified == name)

def formats (s : InstructionSet) : List (Declared Format) :=
  s.definitions.filterMap (·.format?)

def resources (s : InstructionSet) : List Resource :=
  s.definitions.filterMap (·.resource?)

def counters (s : InstructionSet) : List Counter :=
  s.definitions.filterMap (·.counter?)

def instructions (s : InstructionSet) : List Instruction :=
  s.definitions.filterMap (·.instruction?)

def conventions (s : InstructionSet) : List Convention :=
  s.definitions.filterMap (·.convention?)

def format? (s : InstructionSet) (name : String) : Option (Declared Format) :=
  (s.definition? name).bind (·.format?)

def resource? (s : InstructionSet) (name : String) : Option Resource :=
  (s.definition? name).bind (·.resource?)

def counter? (s : InstructionSet) (name : String) : Option Counter :=
  (s.definition? name).bind (·.counter?)

def instruction? (s : InstructionSet) (name : String) : Option Instruction :=
  (s.definition? name).bind (·.instruction?)

def convention? (s : InstructionSet) (name : String) : Option Convention :=
  (s.definition? name).bind (·.convention?)

/-- The registered format is this very declaration. -/
def ownsFormat (s : InstructionSet) (format : Declared Format) : Bool :=
  s.formats.any (·.isSame format)

/-- The register storage is a resource of the instruction set, as this very declaration. -/
def ownsTensor (s : InstructionSet) (tensor : Declared Tensor) : Bool :=
  s.resources.any fun r => r.tensor?.any (·.isSame tensor)

def checkFresh (s : InstructionSet) (name : Name) : Except Error Unit :=
  if (s.definition? name.qualified).isSome then
    .error (.about name (.instructionSet (.definedTwice name s.name)))
  else .ok ()

def register (s : InstructionSet) (d : Definition) : Except Error InstructionSet := do
  s.checkFresh d.name
  return { s with definitions := s.definitions ++ [d] }

def addFormat (s : InstructionSet) (format : Declared Format) : Except Error InstructionSet :=
  s.register (.format format)

def addResource (s : InstructionSet) (resource : Resource) : Except Error InstructionSet :=
  s.register (.resource resource)

def addCounter (s : InstructionSet) (counter : Counter) : Except Error InstructionSet :=
  s.register (.counter counter)

def addConvention (s : InstructionSet) (convention : Convention) : Except Error InstructionSet :=
  s.register (.convention convention)

def addInstruction (s : InstructionSet) (instruction : Instruction) :
    Except Error InstructionSet :=
  if s.ownsFormat instruction.format then s.register (.instruction instruction)
  else
    .error (.about instruction.name (.instructionSet
      (.foreignFormat instruction.format.item.name s.name)))

/-- An instruction of a registered format that binds no field yet. Its name is not taken, so it can
be registered once its fields are bound. -/
def draftInstruction (s : InstructionSet) (name : Name) (format : String) :
    Except Error Instruction := do
  s.checkFresh name
  match s.format? format with
  | none => .error (.about name (.instructionSet (.unknownFormat format)))
  | some f => return ⟨name, .empty (name.append "encoding") f⟩

def elements (s : InstructionSet) : List Element :=
  s.definitions.flatMap (·.elements)

end InstructionSet

end MachineDescription
