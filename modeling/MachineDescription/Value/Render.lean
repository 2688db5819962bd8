import MachineDescription.Value.Basic

namespace MachineDescription

/-- The bases in which a pattern is written. -/
inductive Radix where
  | binary
  | decimal
  | hexadecimal
  deriving DecidableEq, Repr

namespace Radix

def base : Radix → Nat
  | binary => 2
  | decimal => 10
  | hexadecimal => 16

def mark : Radix → String
  | binary => "0b"
  | decimal => ""
  | hexadecimal => "0x"

/-- Digits that cover a number of bits; decimal digits do not align with bits. -/
def digitsFor (radix : Radix) (width : Nat) : Nat :=
  match radix with
  | binary => width
  | decimal => 0
  | hexadecimal => (width + 3) / 4

end Radix

namespace Value

/-- The pattern in a base, behind a mark. Filling stops at the width of the type; a truth value is
never filled. -/
def inRadix (v : Value) (mark : String) (radix : Radix) (padded : Bool) : String :=
  let count := if padded && !v.ty.isBool then radix.digitsFor v.width else 0
  mark ++ String.ofList (Numeral.pad count (Numeral.write radix.base v.pattern))

def decimal (v : Value) : String :=
  v.inRadix Radix.decimal.mark .decimal false

def hexadecimal (v : Value) : String :=
  v.inRadix Radix.hexadecimal.mark .hexadecimal true

def binary (v : Value) : String :=
  v.inRadix Radix.binary.mark .binary true

def render (v : Value) : String :=
  if v.ty.isBool then (if v.isZero then "false" else "true") else s!"{v.hexadecimal}: {v.ty}"

instance : ToString Value := ⟨render⟩

end Value

end MachineDescription
