import MachineDescription.Error.Cause

namespace MachineDescription

/-- A cause, the objects involved and, if known, the place of the definition at fault. On its way
out an error collects further context: the definition in which it arose and the parameter or binding
concerned. Nothing is recovered on the way. -/
structure Error where
  cause : Cause
  context : List (String × String)
  span : Option Span

namespace Error

def definitionKey : String :=
  "definition"

def of (cause : Cause) : Error :=
  ⟨cause, cause.subjects, none⟩

def about (name : Name) (cause : Cause) : Error :=
  ⟨cause, (definitionKey, name.qualified) :: cause.subjects, name.span⟩

def kind (e : Error) : ErrorKind :=
  e.cause.kind

def message (e : Error) : String :=
  e.cause.message

def withContext (e : Error) (key value : String) : Error :=
  { e with context := e.context ++ [(key, value)] }

/-- Record the definition in which the error arose; its place counts if none is known yet. -/
def withDefinition (e : Error) (name : Name) : Error :=
  { e with
    context := e.context ++ [(definitionKey, name.qualified)]
    span := e.span.or name.span }

def withSpan (e : Error) (span : Span) : Error :=
  { e with span := some span }

def contextValue? (e : Error) (key : String) : Option String :=
  e.context.lookup key

def render (e : Error) : String :=
  let context := e.context.map fun entry => s!"\n\twith {entry.1}:\t{entry.2}"
  let place := (e.span.map fun span => s!"\n\twith location:\t{span}").getD ""
  s!"{e.kind.label} error: {e.message}" ++ String.join context ++ place

instance : ToString Error := ⟨render⟩

@[simp]
theorem kind_withContext (e : Error) (key value : String) :
    (e.withContext key value).kind = e.kind :=
  rfl

@[simp]
theorem kind_withDefinition (e : Error) (name : Name) : (e.withDefinition name).kind = e.kind :=
  rfl

end Error

end MachineDescription
