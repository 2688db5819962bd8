import MachineDescription.Expr.Eval

namespace MachineDescription

/-- What a resource holds at one address. -/
structure Cell where
  resource : String
  address : List Nat
  content : Value

namespace Cell

def find? (cells : List Cell) (read : ResourceRead) : Option Cell :=
  cells.find? fun cell => cell.resource == read.resource.qualified && cell.address == read.address

/-- The reader that serves cells and notes the reads in their order, also one that finds no cell. -/
def reader (cells : List Cell) : Reader (List ResourceRead) where
  read resource address := do
    let read : ResourceRead := ⟨resource, address.map Value.pattern⟩
    modify (· ++ [read])
    match find? cells read with
    | some cell => pure cell.content
    | none => throw (.of (.expr (.noCell read)))

end Cell

end MachineDescription
