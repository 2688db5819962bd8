import MachineDescription.Error.Basic

namespace MachineDescription

inductive Level where
  | error
  | warning
  deriving DecidableEq, Repr

namespace Level

def label : Level → String
  | error => "error"
  | warning => "warning"

end Level

/-- What the verifier looks for across definitions. -/
inductive Rule where
  /-- Two instructions match a common word, and neither refines the other. -/
  | ambiguousEncoding
  /-- Constraints pin the same element to different values. -/
  | conflictingConstraint
  | unownedCounterResource
  | unknownInnerResource
  | unownedAbiRegister
  | uncoveredBits
  | overlappingFields
  /-- Constraints pin the same element to the same value. -/
  | duplicateConstraint
  | emptyEncoding
  | abiSavedTwice
  deriving DecidableEq, Repr

namespace Rule

def all : List Rule :=
  [ambiguousEncoding, conflictingConstraint, unownedCounterResource, unknownInnerResource,
    unownedAbiRegister, uncoveredBits, overlappingFields, duplicateConstraint, emptyEncoding,
    abiSavedTwice]

def code : Rule → String
  | ambiguousEncoding => "verify.ambiguous-encoding"
  | conflictingConstraint => "verify.conflicting-constraint"
  | unownedCounterResource => "verify.unowned-counter-resource"
  | unknownInnerResource => "verify.unknown-inner-resource"
  | unownedAbiRegister => "verify.unowned-abi-register"
  | uncoveredBits => "verify.uncovered-bits"
  | overlappingFields => "verify.overlapping-fields"
  | duplicateConstraint => "verify.duplicate-constraint"
  | emptyEncoding => "verify.empty-encoding"
  | abiSavedTwice => "verify.abi-saved-twice"

def level : Rule → Level
  | ambiguousEncoding | conflictingConstraint | unownedCounterResource | unknownInnerResource
  | unownedAbiRegister => .error
  | uncoveredBits | overlappingFields | duplicateConstraint | emptyEncoding | abiSavedTwice =>
    .warning

end Rule

inductive Phase where
  | construction
  | verification
  deriving DecidableEq, Repr

namespace Phase

def label : Phase → String
  | construction => "construction"
  | verification => "verification"

end Phase

inductive Origin where
  | construction (kind : ErrorKind)
  | verification (rule : Rule)
  deriving DecidableEq, Repr

namespace Origin

def code : Origin → String
  | construction kind => kind.code
  | verification rule => rule.code

def level : Origin → Level
  | construction _ => .error
  | verification rule => rule.level

def phase : Origin → Phase
  | construction _ => .construction
  | verification _ => .verification

end Origin

/-- A report on a rejected construction, or a finding of the verifier under one of its rules. The
rule fixes both the stable code and the severity of a finding. -/
structure Diagnostic where
  origin : Origin
  message : String
  definition : Option String
  span : Option Span

namespace Diagnostic

def finding (rule : Rule) (message : String) (name : Name) : Diagnostic :=
  ⟨.verification rule, message, some name.qualified, name.span⟩

def level (d : Diagnostic) : Level :=
  d.origin.level

def isError (d : Diagnostic) : Bool :=
  d.level = .error

/-- The place that a reader is pointed to: a place in a file, else a definition. -/
def location (d : Diagnostic) : String :=
  match d.span, d.definition with
  | some span, _ => span.render
  | none, some definition => definition
  | none, none => "<unknown>"

def render (d : Diagnostic) : String :=
  s!"{d.level.label}[{d.origin.code}]: {d.message} @ {d.location}"

end Diagnostic

/-- The report of an error. The definition becomes its subject, the rest of the context a part of
the message. -/
def Error.toDiagnostic (e : Error) : Diagnostic :=
  let context := e.context.filter (fun entry => entry.1 != Error.definitionKey)
  { origin := .construction e.kind
    message := e.message ++ String.join (context.map fun entry => s!"; {entry.1}: {entry.2}")
    definition := e.contextValue? Error.definitionKey
    span := e.span }

end MachineDescription
