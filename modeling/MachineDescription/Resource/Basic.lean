import MachineDescription.Resource.Artificial
import MachineDescription.Resource.Counter

namespace MachineDescription

/-- A wire that carries one value. -/
structure Signal where
  name : Name
  ty : DataType

/-- Memory of an unstated number of words. -/
structure Memory where
  name : Name
  address : DataType
  word : DataType

namespace Memory

/-- A memory of bits; truth values neither address it nor are stored in it. -/
def make (name : Name) (address word : DataType) : Except Error Memory :=
  if address.isBool || word.isBool then
    .error (.about name (.resource (.memoryOfBool address word)))
  else .ok ⟨name, address, word⟩

end Memory

/-- The storage of a machine. Each resource has a relation from the types of its address to the type
of its contents. -/
inductive Resource where
  | signal (signal : Signal)
  | register (tensor : Declared Tensor)
  | memory (memory : Memory)
  | artificial (artificial : Artificial)

namespace Resource

def name : Resource → Name
  | signal s => s.name
  | register t => t.item.name
  | memory m => m.name
  | artificial a => a.name

def kind : Resource → ResourceKind
  | signal _ => .signal
  | register t =>
    if t.item.isSingle then .register
    else if t.item.isFile then .registerFile
    else .registerTensor
  | memory _ => .memory
  | artificial _ => .artificial

def addressType? : Resource → Option DataType
  | signal _ => none
  | register t => t.item.addressType?
  | memory m => some m.address
  | artificial a => a.address?

def hasAddress (r : Resource) : Bool :=
  r.addressType?.isSome

def resultType : Resource → DataType
  | signal s => s.ty
  | register t => t.item.resultType
  | memory m => m.word
  | artificial a => a.resultType

/-- The type of what an access with some indices yields. -/
def resultTypeFor (r : Resource) (provided : Nat) : Except Error DataType :=
  match r with
  | register t => t.item.resultTypeFor provided
  | r =>
    let max := if r.hasAddress then 1 else 0
    if max < provided then .error (.about r.name (.resource (.tooManyProvided provided max)))
    else .ok r.resultType

def relation (r : Resource) : Relation :=
  match r with
  | register t => t.item.relation
  | r => ⟨r.addressType?.toList, r.resultType⟩

def tensor? : Resource → Option (Declared Tensor)
  | register t => some t
  | _ => none

def artificial? : Resource → Option Artificial
  | artificial a => some a
  | _ => none

def render (r : Resource) : String :=
  s!"{r.kind.label} {r.name}: {r.relation}"

instance : ToString Resource := ⟨render⟩

end Resource

end MachineDescription
