import MachineDescription.Function
import MachineDescription.DataType

namespace MachineDescription

inductive ArtificialKind where
  | registerFileAlias
  | custom
  deriving DecidableEq, Repr

/-- A resource made of a read function and a write procedure. With an address, both take it as their
first parameter; the procedure takes the value last. -/
structure Artificial where
  name : Name
  kind : ArtificialKind
  inner : Option Name
  address? : Option DataType
  resultType : DataType
  read : Function
  write : Procedure

namespace Artificial

/-- The first pair of types of different width. -/
def firstMismatch? (terminals : List (Terminal × DataType × DataType)) :
    Option (Terminal × DataType × DataType) :=
  terminals.find? fun entry => !entry.2.1.sameWidth entry.2.2

/-- The types that have to agree, in the order in which they are checked. -/
def terminals (a : Artificial) : List (Terminal × DataType × DataType) :=
  let value := a.write.params.getLast?.map fun p => (Terminal.writeValue, p.ty, a.resultType)
  let address := a.address?.toList.flatMap fun ty =>
    (a.read.params.head?.map fun p => (Terminal.readAddress, p.ty, ty)).toList ++
      (a.write.params.head?.map fun p => (Terminal.writeAddress, p.ty, ty)).toList
  (Terminal.readResult, a.read.result, a.resultType) :: value.toList ++ address

def check (a : Artificial) : Except Error Artificial :=
  let refuse := fun (fault : ResourceFault) => Except.error (Error.about a.name (.resource fault))
  let expected := if a.address?.isSome then 1 else 0
  if a.read.params.length ≠ expected then
    refuse (.readParameters expected a.read.params.length)
  else if a.write.params.length ≠ expected + 1 then
    refuse (.writeParameters (expected + 1) a.write.params.length)
  else
    match firstMismatch? a.terminals with
    | some (terminal, actual, wanted) => refuse (.terminalType terminal actual wanted)
    | none => .ok a

def relation (a : Artificial) : Relation :=
  ⟨a.address?.toList, a.resultType⟩

end Artificial

end MachineDescription
