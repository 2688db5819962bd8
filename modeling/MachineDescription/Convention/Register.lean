import MachineDescription.Declared
import MachineDescription.Resource.Tensor

namespace MachineDescription

inductive Alignment where
  | none
  | halfWord
  | word
  | doubleWord
  deriving DecidableEq, Repr

namespace Alignment

def bytes? : Alignment → Option Nat
  | none => .none
  | halfWord => some 4
  | word => some 8
  | doubleWord => some 16

def bits? (a : Alignment) : Option Nat :=
  a.bytes?.map (· * 8)

end Alignment

/-- An element of a register file. It keeps the declaration of the file, so registers of two files
are never the same, even if the files look alike. -/
structure Register where
  file : Declared Tensor
  index : Nat
  alignment : Alignment
  isFile : file.item.isFile = true
  index_lt : index < file.item.outermost.size

namespace Register

def make (file : Declared Tensor) (index : Nat) (alignment : Alignment) : Except Error Register :=
  if isFile : file.item.isFile then
    if inside : index < file.item.outermost.size then .ok ⟨file, index, alignment, isFile, inside⟩
    else
      .error (.of (.convention
        (.indexBeyondFile file.item.name file.item.outermost.size index)))
  else .error (.of (.convention (.notFile file.item.name index)))

/-- The same element of the same file; the alignment does not count. -/
def isSame (r s : Register) : Bool :=
  r.file.isSame s.file && r.index == s.index

def render (r : Register) : String :=
  s!"{r.file.item.name.simple}{r.index}"

instance : ToString Register := ⟨render⟩

end Register

/-- A register and its further names, in the order in which they were given. A table has one entry
for each register that is named. -/
structure Alias where
  register : Register
  names : List String

namespace Alias

def forRegister? (table : List Alias) (register : Register) : Option Alias :=
  table.find? (·.register.isSame register)

def namesOf (table : List Alias) (register : Register) : List String :=
  ((forRegister? table register).map (·.names)).getD []

def register? (table : List Alias) (name : String) : Option Register :=
  (table.find? (·.names.contains name)).map (·.register)

/-- Give a register one more name, in a new entry if it has none. -/
def add (register : Register) (name : String) : List Alias → List Alias
  | [] => [⟨register, [name]⟩]
  | entry :: rest =>
    if entry.register.isSame register then { entry with names := entry.names ++ [name] } :: rest
    else entry :: add register name rest

end Alias

end MachineDescription
