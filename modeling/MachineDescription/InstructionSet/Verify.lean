import MachineDescription.Diagnostic
import MachineDescription.InstructionSet.Basic

namespace MachineDescription

namespace Format

/-- The bits that no field covers, as one slice with the highest bit first. -/
def uncoveredSlice? (f : Format) : Option Slice :=
  (Slice.ofRanges (f.uncovered.reverse.map .single)).toOption

/-- The warning that a format leaves bits open. -/
def gapReport (f : Format) (slice : Slice) : Diagnostic :=
  .finding .uncoveredBits s!"bits {slice} of format '{f.name}' are not covered by any field" f.name

/-- The warning that two fields share bits. -/
def overlapReport (f : Format) (a b : Field) : Diagnostic :=
  .finding .overlappingFields
    (s!"fields '{a.name.simple}' {a.slice} and '{b.name.simple}' {b.slice} " ++
      s!"of format '{f.name}' overlap")
    b.name

def coverageFindings (f : Format) : List Diagnostic :=
  f.uncoveredSlice?.toList.map f.gapReport

def overlapFindings (f : Format) : List Diagnostic :=
  f.overlapping.map fun pair => f.overlapReport pair.1 pair.2

def findings (f : Format) : List Diagnostic :=
  f.coverageFindings ++ f.overlapFindings

end Format

namespace Tensor

/-- An element as it is shown: the tensor and an index in brackets for each dimension. -/
def showElement (t : Tensor) (indices : List Value) : String :=
  t.name.qualified ++ String.join (indices.map fun index => s!"({index.decimal})")

/-- A report on a constraint whose element an earlier one pins. -/
def constraintFinding? (t : Tensor) (earlier : List Constraint) (constraint : Constraint) :
    Option Diagnostic :=
  (earlier.find? (·.indices == constraint.indices)).map fun other =>
    let element := t.showElement constraint.indices
    let value := constraint.value.decimal
    if other.value.pattern = constraint.value.pattern then
      .finding .duplicateConstraint s!"{element} is constrained to {value} more than once" t.name
    else
      .finding .conflictingConstraint
        s!"{element} is constrained to both {other.value.decimal} and {value}" t.name

def constraintFindings (t : Tensor) (earlier : List Constraint) :
    List Constraint → List Diagnostic
  | [] => []
  | constraint :: rest =>
    (t.constraintFinding? earlier constraint).toList ++
      t.constraintFindings (earlier ++ [constraint]) rest

def findings (t : Tensor) : List Diagnostic :=
  t.constraintFindings [] t.constraints

end Tensor

namespace Instruction

/-- A report on an instruction that accepts every word. -/
def emptyFinding? (i : Instruction) : Option Diagnostic :=
  if i.pattern.specificity = 0 then
    some (.finding .emptyEncoding s!"instruction '{i.name}' does not fix any bit" i.name)
  else none

/-- One of two patterns fixes all that the other one fixes, and more. -/
def refines (p q : Pattern) : Bool :=
  (p.mask &&& q.mask == p.mask || p.mask &&& q.mask == q.mask) && p.specificity != q.specificity

/-- The report that one instruction is ambiguous with a later one. -/
def ambiguity (i j : Instruction) : Diagnostic :=
  .finding .ambiguousEncoding
    s!"encodings of '{i.name}' {i.pattern} and '{j.name}' {j.pattern} are ambiguous" j.name

/-- A report on two instructions that accept a common word, unless one is a refinement of the
other. -/
def ambiguity? (i j : Instruction) : Option Diagnostic :=
  if i.pattern.overlaps j.pattern && !refines i.pattern j.pattern then some (i.ambiguity j)
  else none

/-- Reports on each instruction, and on it with each later one. -/
def findings : List Instruction → List Diagnostic
  | [] => []
  | i :: rest => i.emptyFinding?.toList ++ rest.filterMap i.ambiguity? ++ findings rest

end Instruction

namespace InstructionSet

def artificialFinding? (s : InstructionSet) (a : Artificial) : Option Diagnostic :=
  a.inner.bind fun inner =>
    if (s.resource? inner.qualified).isSome then none
    else
      some (.finding .unknownInnerResource
        (s!"artificial resource '{a.name}' wraps '{inner}' " ++
          s!"which is not a resource of '{s.name}'")
        a.name)

def resourceFindings (s : InstructionSet) : Resource → List Diagnostic
  | .register tensor => tensor.item.findings
  | .artificial a => (s.artificialFinding? a).toList
  | .signal _ | .memory _ => []

def counterFinding? (s : InstructionSet) (c : Counter) : Option Diagnostic :=
  if s.ownsTensor c.tensor then none
  else
    some (.finding .unownedCounterResource
      (s!"{c.kind.label} '{c.name}' refers to '{c.tensor.item.name}' " ++
        s!"which is not a resource of '{s.name}'")
      c.name)

def useFinding? (s : InstructionSet) (c : Convention) (use : String) (register : Register) :
    Option Diagnostic :=
  if s.ownsTensor register.file then none
  else
    some (.finding .unownedAbiRegister
      (s!"{use} {register} of '{c.name}' refers to '{register.file.item.name}' " ++
        s!"which is not a resource of '{s.name}'")
      c.name)

def savedFinding? (c : Convention) (register : Register) : Option Diagnostic :=
  if c.usage.calleeSaved.any (·.isSame register) then
    some (.finding .abiSavedTwice
      s!"{register} of '{c.name}' is both caller-saved and callee-saved" c.name)
  else none

def conventionFindings (s : InstructionSet) (c : Convention) : List Diagnostic :=
  c.uses.filterMap (fun use => s.useFinding? c use.1 use.2) ++
    c.usage.callerSaved.filterMap (savedFinding? c)

/-- The reports on formats, resources, counters, calling conventions and the encodings of all
instructions, in this order. -/
def findings (s : InstructionSet) : List Diagnostic :=
  s.formats.flatMap (·.item.findings) ++
    s.resources.flatMap s.resourceFindings ++
    s.counters.filterMap s.counterFinding? ++
    s.conventions.flatMap s.conventionFindings ++
    Instruction.findings s.instructions

/-- The errors, if there are any; else the warnings. -/
def verify (s : InstructionSet) : Except (List Diagnostic) (List Diagnostic) :=
  let errors := s.findings.filter (·.isError)
  if errors.isEmpty then .ok s.findings else .error errors

def verificationReport (errors : List Diagnostic) : String :=
  s!"verification produced {errors.length} error(s):\n" ++
    String.join (errors.map fun d => s!"  - {d.render}\n")

end InstructionSet

end MachineDescription
