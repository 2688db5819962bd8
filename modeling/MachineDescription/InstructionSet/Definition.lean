import MachineDescription.Convention.Basic
import MachineDescription.Encoding.Basic
import MachineDescription.Resource.Basic

namespace MachineDescription

/-- An instruction is the encoding that tells its words from those of others. -/
structure Instruction where
  name : Name
  encoding : Encoding

namespace Instruction

def format (i : Instruction) : Declared Format :=
  i.encoding.format

def pattern (i : Instruction) : Pattern :=
  i.encoding.pattern

def bind (i : Instruction) (label : String) (v : Value) : Except Error Instruction := do
  return { i with encoding := ← i.encoding.bind label v }

def bindInteger (i : Instruction) (label : String) (n : Int) : Except Error Instruction := do
  return { i with encoding := ← i.encoding.bindInteger label n }

def render (i : Instruction) : String :=
  s!"instruction {i.name}: {i.format.item.name} = {i.pattern}"

instance : ToString Instruction := ⟨render⟩

end Instruction

inductive Definition where
  | format (format : Declared Format)
  | resource (resource : Resource)
  | counter (counter : Counter)
  | instruction (instruction : Instruction)
  | convention (convention : Convention)

namespace Definition

def name : Definition → Name
  | format f => f.item.name
  | resource r => r.name
  | counter c => c.name
  | instruction i => i.name
  | convention c => c.name

def kind : Definition → String
  | format _ => "format"
  | resource _ => "resource"
  | counter _ => "counter"
  | instruction _ => "instruction"
  | convention _ => "abi"

def format? : Definition → Option (Declared Format)
  | format f => some f
  | _ => none

def resource? : Definition → Option Resource
  | resource r => some r
  | _ => none

def counter? : Definition → Option Counter
  | counter c => some c
  | _ => none

def instruction? : Definition → Option Instruction
  | instruction i => some i
  | _ => none

def convention? : Definition → Option Convention
  | convention c => some c
  | _ => none

end Definition

/-- A definition or a part of one that has a name of its own. -/
inductive Element where
  | definition (definition : Definition)
  | field (field : Field)
  | access (access : FieldAccess)
  | encoding (encoding : Encoding)

namespace Element

def name : Element → Name
  | definition d => d.name
  | field f => f.name
  | access a => a.name
  | encoding e => e.name

def kind : Element → String
  | definition d => d.kind
  | field _ => "field"
  | access _ => "field access"
  | encoding _ => "encoding"

end Element

/-- A definition followed by its parts: the fields and then the views of a format, the encoding of
an instruction. -/
def Definition.elements (d : Definition) : List Element :=
  .definition d :: match d with
    | .format f =>
      f.item.fields.map (fun m => .field m.item) ++ f.item.accesses.map (fun m => .access m.item)
    | .instruction i => [.encoding i.encoding]
    | .resource _ | .counter _ | .convention _ => []

end MachineDescription
