import MachineDescription.DataType
import MachineDescription.Value.Convert

namespace MachineDescription

/-- One axis of a tensor: its elements and the type of an index. -/
structure Dimension where
  position : Nat
  ty : DataType
  size : Nat
  size_pos : 0 < size
  /-- The index of the last element has a pattern of the type. -/
  addressable : DataType.indexWidth (size - 1) ≤ ty.width

namespace Dimension

def make (position : Nat) (ty : DataType) (size : Nat) : Except Error Dimension :=
  if pos : 0 < size then
    let required := DataType.indexWidth (size - 1)
    if fits : required ≤ ty.width then .ok ⟨position, ty, size, pos, fits⟩
    else .error (.of (.resource (.narrowIndex position ty size required)))
  else .error (.of (.resource (.emptyDimension position ty)))

/-- Dimensions with their places counted from a first one. -/
def makeAll (first : Nat) : List (DataType × Nat) → Except Error (List Dimension)
  | [] => .ok []
  | (ty, size) :: rest => do
    let dimension ← make first ty size
    let dimensions ← makeAll (first + 1) rest
    return dimension :: dimensions

/-- Repeat a number of elements along a dimension. The numbers have 64 bits. -/
def repeat? (count : Nat) (d : Dimension) : Option Nat :=
  if count * d.size < Bits.limit 64 then some (count * d.size) else none

/-- The elements of all dimensions together, multiplied from the outermost dimension on. -/
def count? (dims : List Dimension) : Option Nat :=
  dims.foldlM repeat? 1

end Dimension

/-- Pins the element at some indices to a value, such as a register that always reads zero. -/
structure Constraint where
  indices : List Value
  value : Value

/-- Register storage of one or more dimensions, the outermost first. An access gives indices for
some or all dimensions but the innermost, which is the width of one element. A single register has
one dimension and a register file two. -/
structure Tensor where
  name : Name
  dims : List Dimension
  nonempty : dims ≠ []
  element_lt : (dims.getLast nonempty).size < Bits.limit 32
  constraints : List Constraint

namespace Tensor

def refuse {α : Type} (name : Name) (fault : ResourceFault) : Except Error α :=
  .error (.about name (.resource fault))

def make (name : Name) (shape : List (DataType × Nat)) : Except Error Tensor :=
  match Dimension.makeAll 0 shape with
  | .error e => .error (e.withDefinition name)
  | .ok dims =>
    if nonempty : dims ≠ [] then
      if narrow : (dims.getLast nonempty).size < Bits.limit 32 then
        .ok ⟨name, dims, nonempty, narrow, []⟩
      else refuse name (.elementTooWide (dims.getLast nonempty).size)
    else refuse name .noDimensions

def elementShape (ty : DataType) : DataType × Nat :=
  (.bits (DataType.indexWidth (ty.width - 1)), ty.width)

def register (name : Name) (ty : DataType) : Except Error Tensor :=
  make name [elementShape ty]

/-- A register for every pattern of the address type; an address has less than 64 bits. -/
def registerFile (name : Name) (address ty : DataType) : Except Error Tensor :=
  if address.width < 64 then make name [(address, Bits.limit address.width), elementShape ty]
  else refuse name (.addressTooWide address)

def outermost (t : Tensor) : Dimension :=
  t.dims.head t.nonempty

/-- The dimension of the bits of an element. -/
def innermost (t : Tensor) : Dimension :=
  t.dims.getLast t.nonempty

def maxIndices (t : Tensor) : Nat :=
  t.dims.length - 1

def indexDims (t : Tensor) : List Dimension :=
  t.dims.take t.maxIndices

def isSingle (t : Tensor) : Bool :=
  t.dims.length == 1

def isFile (t : Tensor) : Bool :=
  t.dims.length == 2

def hasAddress (t : Tensor) : Bool :=
  1 < t.dims.length

def indexTypes (t : Tensor) : List DataType :=
  t.indexDims.map (·.ty)

def addressType? (t : Tensor) : Option DataType :=
  if t.hasAddress then some t.outermost.ty else none

def resultType (t : Tensor) : DataType :=
  .bits t.innermost.size

/-- The plain type of what an access with some indices yields: all elements below them. -/
def resultTypeFor (t : Tensor) (provided : Nat) : Except Error DataType :=
  if t.dims.length ≤ provided then refuse t.name (.tooManyProvided provided t.maxIndices)
  else
    match (Dimension.count? (t.dims.drop provided)).filter (· < Bits.limit 32) with
    | some width => .ok (.bits width)
    | none => refuse t.name .resultTooWide

def relation (t : Tensor) : Relation :=
  ⟨t.indexTypes, t.resultType⟩

def registerName (t : Tensor) (index : Nat) : Except Error String :=
  if t.isFile then .ok s!"{t.name.simple}{index}" else refuse t.name .namesNeedFile

/-- Index types fit when there are not too many and their widths are those of the dimensions. -/
def checkIndexTypes (t : Tensor) (types : List DataType) : Except Error Unit :=
  if t.maxIndices < types.length then refuse t.name (.tooManyIndices t.maxIndices types.length)
  else
    match (types.zip t.dims).find? (fun entry => !entry.1.sameWidth entry.2.ty) with
    | some (given, dimension) => refuse t.name (.indexType dimension.position dimension.ty given)
    | none => .ok ()

/-- A constraint fits when its indices name elements and its value has their width. -/
def checkConstraint (t : Tensor) (constraint : Constraint) : Except Error Unit := do
  t.checkIndexTypes (constraint.indices.map (·.ty))
  match (constraint.indices.zip t.dims).find? (fun entry => entry.2.size ≤ entry.1.pattern) with
  | some (index, dimension) =>
    refuse t.name (.constraintIndex index dimension.position dimension.size)
  | none =>
    let expected ← t.resultTypeFor constraint.indices.length
    if constraint.value.width = expected.width then return ()
    else refuse t.name (.constraintValue constraint.value.ty expected)

def withConstraints (t : Tensor) (constraints : List Constraint) : Except Error Tensor := do
  constraints.forM t.checkConstraint
  return { t with constraints }

/-- The indices of the first element that is pinned to zero. -/
def zeroRegister? (t : Tensor) : Option (List Value) :=
  (t.constraints.find? (·.value.isZero)).map (·.indices)

end Tensor

end MachineDescription
