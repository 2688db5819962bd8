import MachineDescription.Error.Kind
import MachineDescription.Name
import MachineDescription.Slice.Basic
import MachineDescription.Value.Render

namespace MachineDescription

/-- What a name in an expression stands for. -/
inductive Scope where
  | parameter
  | field
  | access
  deriving DecidableEq, Repr

namespace Scope

def label : Scope → String
  | parameter => "parameter"
  | field => "field"
  | access => "field access"

end Scope

inductive UnaryOp where
  | negate
  | complement
  | not
  deriving DecidableEq, Repr

namespace UnaryOp

def symbol : UnaryOp → String
  | negate => "-"
  | complement => "~"
  | not => "!"

end UnaryOp

inductive Shift where
  | left
  | right
  | rightSigned
  | rotateLeft
  | rotateRight
  deriving DecidableEq, Repr

inductive Order where
  | less
  | atMost
  | greater
  | atLeast
  deriving DecidableEq, Repr

/-- Operators that need both operands. -/
inductive BinaryOp where
  | add
  | subtract
  | multiply
  | multiplyLong (signed : Bool)
  | divide (signed : Bool)
  | modulo (signed : Bool)
  | and
  | or
  | xor
  | shift (shift : Shift)
  | equal
  | differ
  | compare (order : Order) (signed : Bool)
  deriving DecidableEq, Repr

namespace BinaryOp

def signMark (signed : Bool) : String :=
  if signed then "s" else "u"

def symbol : BinaryOp → String
  | add => "+"
  | subtract => "-"
  | multiply => "*"
  | multiplyLong signed => "*#" ++ signMark signed
  | divide signed => "/" ++ signMark signed
  | modulo signed => "%" ++ signMark signed
  | and => "&"
  | or => "|"
  | xor => "^"
  | shift .left => "<<"
  | shift .right => ">>"
  | shift .rightSigned => ">>s"
  | shift .rotateLeft => "<<>"
  | shift .rotateRight => "<>>"
  | equal => "="
  | differ => "!="
  | compare .less signed => "<" ++ signMark signed
  | compare .atMost signed => "<=" ++ signMark signed
  | compare .greater signed => ">" ++ signMark signed
  | compare .atLeast signed => ">=" ++ signMark signed

end BinaryOp

/-- Connectives of truth values; the right operand counts only if the left one does not decide. -/
inductive Connective where
  | and
  | or
  deriving DecidableEq, Repr

namespace Connective

def symbol : Connective → String
  | and => "&&"
  | or => "||"

end Connective

inductive Resize where
  | cast
  | truncate
  | zeroExtend
  | signExtend
  deriving DecidableEq, Repr

/-- The behaviour of a definition, as an expression over values. It refers to parameters of the
function around it, to fields of an instruction format and to values derived from fields, and it
reads resources. -/
inductive Expr where
  | const (v : Value)
  | ref (scope : Scope) (name : Name)
  | read (resource : Name) (address : List Expr)
  | unary (op : UnaryOp) (operand : Expr)
  | binary (op : BinaryOp) (lhs rhs : Expr)
  | logical (op : Connective) (lhs rhs : Expr)
  | slice (operand : Expr) (s : Slice)
  | resize (mode : Resize) (operand : Expr) (ty : DataType)
  | concat (high low : Expr)
  | select (condition whenTrue otherwise : Expr)

namespace Expr

mutual

def render : Expr → String
  | const v => v.render
  | ref _ name => name.qualified
  | read resource address =>
    resource.qualified ++ "(" ++ ", ".intercalate (renderAll address) ++ ")"
  | unary op operand => op.symbol ++ operand.render
  | binary op lhs rhs => "(" ++ lhs.render ++ " " ++ op.symbol ++ " " ++ rhs.render ++ ")"
  | logical op lhs rhs => "(" ++ lhs.render ++ " " ++ op.symbol ++ " " ++ rhs.render ++ ")"
  | slice operand s => operand.render ++ s.render
  | resize .cast operand ty => operand.render ++ " as " ++ ty.render
  | resize .truncate operand ty => "truncate(" ++ operand.render ++ ", " ++ ty.render ++ ")"
  | resize .zeroExtend operand ty => "zext(" ++ operand.render ++ ", " ++ ty.render ++ ")"
  | resize .signExtend operand ty => "sext(" ++ operand.render ++ ", " ++ ty.render ++ ")"
  | concat high low => "(" ++ high.render ++ " :: " ++ low.render ++ ")"
  | select condition whenTrue otherwise =>
    "if " ++ condition.render ++ " then " ++ whenTrue.render ++ " else " ++ otherwise.render

def renderAll : List Expr → List String
  | [] => []
  | e :: rest => e.render :: renderAll rest

end

instance : ToString Expr := ⟨render⟩

mutual

/-- The names that stand for something of the given scope, at every place from the left. -/
def references (scope : Scope) : Expr → List Name
  | const _ => []
  | ref own name => if own = scope then [name] else []
  | read _ address => referencesAll scope address
  | unary _ operand | slice operand _ | resize _ operand _ => operand.references scope
  | binary _ lhs rhs | logical _ lhs rhs | concat lhs rhs =>
    lhs.references scope ++ rhs.references scope
  | select condition whenTrue otherwise =>
    condition.references scope ++ whenTrue.references scope ++ otherwise.references scope

def referencesAll (scope : Scope) : List Expr → List Name
  | [] => []
  | e :: rest => e.references scope ++ referencesAll scope rest

end

mutual

/-- The resources that are read, at every place; a read stands before those in its address. -/
def resources : Expr → List Name
  | const _ | ref _ _ => []
  | read resource address => resource :: resourcesAll address
  | unary _ operand | slice operand _ | resize _ operand _ => operand.resources
  | binary _ lhs rhs | logical _ lhs rhs | concat lhs rhs => lhs.resources ++ rhs.resources
  | select condition whenTrue otherwise =>
    condition.resources ++ whenTrue.resources ++ otherwise.resources

def resourcesAll : List Expr → List Name
  | [] => []
  | e :: rest => e.resources ++ resourcesAll rest

end

def fieldRefs (e : Expr) : List Name :=
  Name.distinct (e.references .field)

def resourceReads (e : Expr) : List Name :=
  Name.distinct e.resources

end Expr

/-- One read of a resource: the resource and the patterns of the address. -/
structure ResourceRead where
  resource : Name
  address : List Nat

namespace ResourceRead

def render (read : ResourceRead) : String :=
  read.resource.qualified ++ "(" ++ ",".intercalate (read.address.map Nat.repr) ++ ")"

instance : ToString ResourceRead := ⟨render⟩

end ResourceRead

/-- Why an evaluation or a call fails, faults of values apart. -/
inductive ExprFault where
  | unbound (scope : Scope) (name : Name)
  | noReader (resource : Name)
  | noCell (read : ResourceRead)
  | argumentCount (expected given : Nat)
  | resultType (declared actual : DataType)

namespace ExprFault

def kind : ExprFault → ErrorKind
  | unbound .. | noReader _ | noCell _ => .evaluation
  | argumentCount .. => .shape
  | resultType .. => .typeMismatch

def message : ExprFault → String
  | unbound scope name => s!"unbound {scope.label} '{name}'"
  | noReader resource => s!"reading resource '{resource}' requires a resource reader"
  | noCell read => s!"no cell {read.render}"
  | argumentCount expected given => s!"expected {expected} argument(s), got {given}"
  | resultType declared actual => s!"function returns {declared} but its body produced {actual}"

end ExprFault

end MachineDescription
