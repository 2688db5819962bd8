import MachineDescription.Text

namespace MachineDescription

/-- Line and column in a file, both counted from one. -/
structure Position where
  line : Nat
  column : Nat
  deriving DecidableEq, Repr

/-- The region of a file from `start` up to `stop`. -/
structure Span where
  path : String
  start : Position
  stop : Position
  deriving DecidableEq, Repr

namespace Span

def point (path : String) (position : Position) : Span :=
  ⟨path, position, position⟩

def render (span : Span) : String :=
  s!"{span.path}:{span.start.line}:{span.start.column}"

instance : ToString Span := ⟨render⟩

end Span

/-- A qualified name such as `RV32I::Rtype::rs1`, with the place of its definition. Two names are
the same when their parts are; the place does not count. -/
structure Name where
  parts : List String
  span : Option Span := none
  deriving Repr

namespace Name

def dropDot : List Char → List Char
  | '.' :: rest => rest
  | text => text

/-- Blanks on both sides, one dot in front and then one dot at the end do not belong to a part. -/
def cleaned (text : List Char) : List Char :=
  (dropDot (dropDot (Text.trim text)).reverse).reverse

def cleanPart (part : String) : String :=
  String.ofList (cleaned part.toList)

/-- The pieces of a text between its double colons, found from the left. -/
def splitScopes : List Char → List (List Char)
  | [] => [[]]
  | ':' :: ':' :: rest => [] :: splitScopes rest
  | c :: rest =>
    match splitScopes rest with
    | [] => [[c]]
    | piece :: pieces => (c :: piece) :: pieces

def ofParts (parts : List String) : Name :=
  ⟨parts.map cleanPart, none⟩

def parse (text : String) : Name :=
  ofParts ((splitScopes text.toList).map String.ofList)

def withSpan (name : Name) (span : Span) : Name :=
  { name with span := some span }

def qualified (name : Name) : String :=
  "::".intercalate name.parts

def simple (name : Name) : String :=
  name.parts.getLast?.getD ""

/-- The parts joined to one symbol. -/
def symbol (name : Name) : String :=
  "_".intercalate name.parts

/-- Add a part as a whole; it is cleaned but not split. -/
def append (name : Name) (part : String) : Name :=
  { name with parts := name.parts ++ [cleanPart part] }

def inScope (name scope : Name) : Name :=
  { name with parts := scope.parts ++ name.parts }

/-- Lengthen the last part, as it stands, by a text. -/
def extendSimple (name : Name) (ending : String) : Name :=
  { name with parts := name.parts.dropLast ++ (name.parts.getLast?.map (· ++ ending)).toList }

/-- Names are compared by their parts. -/
instance : BEq Name := ⟨fun name other => name.parts == other.parts⟩

instance : ToString Name := ⟨qualified⟩

/-- The different names of a list, each where it stands first. -/
def distinct : List Name → List Name
  | [] => []
  | name :: rest => name :: (distinct rest).filter (· != name)

theorem beq_iff {name other : Name} : (name == other) = true ↔ name.parts = other.parts := by
  change (name.parts == other.parts) = true ↔ _
  exact beq_iff_eq

end Name

end MachineDescription
