namespace MachineDescription

/-- The kinds of rejected constructions, operations and evaluations. Each has a stable code for
tools and a label for people. -/
inductive ErrorKind where
  /-- An integer, a pattern or an index does not fit. -/
  | range
  /-- Parts that must go together do not: an empty or overlapping slice, a wrong width or count. -/
  | shape
  | doubleBinding
  | typeMismatch
  | unsupported
  | evaluation
  | literal
  deriving DecidableEq, Repr

namespace ErrorKind

def all : List ErrorKind :=
  [range, shape, doubleBinding, typeMismatch, unsupported, evaluation, literal]

def code : ErrorKind → String
  | range => "model.range"
  | shape => "model.shape"
  | doubleBinding => "model.double-binding"
  | typeMismatch => "model.type-mismatch"
  | unsupported => "model.unsupported"
  | evaluation => "model.evaluation"
  | literal => "model.literal"

def label : ErrorKind → String
  | range => "range"
  | shape => "shape"
  | doubleBinding => "double binding"
  | typeMismatch => "type mismatch"
  | unsupported => "unsupported operation"
  | evaluation => "evaluation"
  | literal => "literal"

end ErrorKind

end MachineDescription
