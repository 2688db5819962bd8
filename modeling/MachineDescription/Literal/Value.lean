import MachineDescription.Value.Convert

namespace MachineDescription

inductive LiteralKind where
  | decimal
  | hexadecimal
  | octal
  | binary
  deriving DecidableEq, Repr

namespace LiteralKind

def label : LiteralKind → String
  | decimal => "decimal"
  | hexadecimal => "hex"
  | octal => "octal"
  | binary => "binary"

def base : LiteralKind → Nat
  | decimal => 10
  | hexadecimal => 16
  | octal => 8
  | binary => 2

end LiteralKind

/-- A numeral such as `42`, `-3`, `0x1F` or `0b0110011`. The marks `0b`, `0o` and `0x`, in either
case, choose the base; underscores between digits do not count; one plus sign may stand in front of
the digits. -/
structure Literal where
  magnitude : Nat
  negative : Bool
  kind : LiteralKind
  /-- The width that a binary literal declares by its length. -/
  width? : Option Nat
  deriving DecidableEq, Repr

namespace Literal

/-- Take off the minus sign and the blanks behind it. -/
def splitSign : List Char → Bool × List Char
  | '-' :: rest => (true, Text.trimStart rest)
  | text => (false, text)

def splitMark : List Char → LiteralKind × List Char
  | '0' :: 'b' :: rest | '0' :: 'B' :: rest => (.binary, rest)
  | '0' :: 'o' :: rest | '0' :: 'O' :: rest => (.octal, rest)
  | '0' :: 'x' :: rest | '0' :: 'X' :: rest => (.hexadecimal, rest)
  | text => (.decimal, text)

def dropPlus : List Char → List Char
  | '+' :: rest => rest
  | text => text

/-- The characters of a numeral that count: all but the underscores. -/
def significant (numeral : List Char) : List Char :=
  numeral.filter (· ≠ '_')

/-- A binary literal is as wide as its numeral has characters that count. The width is kept in 32
bits. -/
def declaredWidth? (kind : LiteralKind) (numeral : List Char) : Option Nat :=
  if kind = .binary then some ((significant numeral).length % Bits.limit 32) else none

/-- Read the numeral behind sign and mark. -/
def ofNumeral? (kind : LiteralKind) (negative : Bool) (numeral : List Char) : Option Literal :=
  (Numeral.read? kind.base (dropPlus (significant numeral))).map fun magnitude =>
    { magnitude, negative, kind, width? := declaredWidth? kind numeral }

def parse (text : String) : Except LiteralFault Literal :=
  let trimmed := Text.trim text.toList
  if trimmed.isEmpty then .error .empty
  else
    let (negative, unsigned) := splitSign trimmed
    let (kind, numeral) := splitMark unsigned
    match ofNumeral? kind negative numeral with
    | none => .error (.malformed (String.ofList numeral))
    | some literal => if negative ∧ kind = .binary then .error .negativeBinary else .ok literal

def integer (literal : Literal) : Int :=
  if literal.negative then -literal.magnitude else literal.magnitude

end Literal

/-- A binary literal is a pattern; every other literal is an integer. -/
def Literal.toValue (literal : Literal) (ty : DataType) : Except Error Value :=
  match literal.kind with
  | .binary => Value.ofPattern literal.magnitude ty
  | .decimal | .hexadecimal | .octal => Value.ofInteger literal.integer ty

def Value.parse (text : String) (ty : DataType) : Except Error Value :=
  match Literal.parse text with
  | .ok literal => literal.toValue ty
  | .error fault => .error (.of (.literal fault))

end MachineDescription
