import MachineDescription.Declared
import MachineDescription.Resource.Tensor

namespace MachineDescription

inductive CounterTarget where
  | register (register : Declared Tensor)
  | element (file : Declared Tensor) (index : Value)

/-- A program or group counter. It lives in a single register or in one element of a register file.
-/
structure Counter where
  name : Name
  kind : CounterKind
  position : CounterPosition
  target : CounterTarget

namespace Counter

def inRegister (name : Name) (register : Declared Tensor) (position : CounterPosition)
    (kind : CounterKind) : Except Error Counter :=
  if register.item.isSingle then .ok ⟨name, kind, position, .register register⟩
  else
    .error (.about name (.resource
      (.counterShape kind register.item.name register.item.dims.length)))

/-- A counter in an element of a register file. The index has the width of the address. -/
def inElement (name : Name) (file : Declared Tensor) (index : Value) (position : CounterPosition)
    (kind : CounterKind) : Except Error Counter :=
  if file.item.isFile then
    if index.ty.sameWidth file.item.outermost.ty then
      .ok ⟨name, kind, position, .element file index⟩
    else .error (.about name (.resource (.counterIndex index.ty file.item.outermost.ty)))
  else .error (.about name (.resource (.counterFile file.item.name)))

def tensor (c : Counter) : Declared Tensor :=
  match c.target with
  | .register register => register
  | .element file _ => file

def index? (c : Counter) : Option Value :=
  match c.target with
  | .register _ => none
  | .element _ index => some index

def resultType (c : Counter) : DataType :=
  c.tensor.item.resultType

/-- A counter is shown with its register, unless that has its name. -/
def render (c : Counter) : String :=
  let place := match c.target with
    | .register register =>
      if register.item.name == c.name then "" else s!" = {register.item.name}"
    | .element file index => s!" = {file.item.name}({index.decimal})"
  s!"{c.kind.label} {c.name}: {c.resultType}{place}"

instance : ToString Counter := ⟨render⟩

end Counter

end MachineDescription
