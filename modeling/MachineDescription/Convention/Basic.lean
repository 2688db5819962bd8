import MachineDescription.Convention.Register

namespace MachineDescription

/-- What a draft and a finished convention have in common. -/
structure Convention.Usage where
  aliases : List Alias
  callerSaved : List Register
  calleeSaved : List Register
  arguments : List Register
  results : List Register
  stack : Alignment
  /-- The alignment of the stack while a call is being prepared. -/
  transientStack : Alignment
  fileAlignments : List (Declared Tensor × Alignment)

/-- A calling convention in the making, to which each call adds something. -/
structure Convention.Draft where
  name : Name
  pointer? : PointerRole → Option Register
  usage : Convention.Usage

/-- Which registers hold the special pointers, who saves which register, and where arguments and
results are passed. A finished convention has all special pointers except the thread pointer, which
it may lack. -/
structure Convention where
  name : Name
  returnAddress : Register
  stackPointer : Register
  framePointer : Register
  globalPointer : Register
  threadPointer : Option Register
  usage : Convention.Usage

namespace Convention

namespace Usage

def empty : Usage :=
  ⟨[], [], [], [], [], .none, .none, []⟩

/-- The alignment of a register file: the first one that was given. -/
def alignmentOf (u : Usage) (file : Declared Tensor) : Alignment :=
  ((u.fileAlignments.find? (·.1.isSame file)).map (·.2)).getD .none

end Usage

namespace Draft

def empty (name : Name) : Draft :=
  ⟨name, fun _ => none, .empty⟩

def refuse {α : Type} (d : Draft) (fault : ConventionFault) : Except Error α :=
  .error (.about d.name (.convention fault))

/-- Give a role to a register, once. -/
def assign (d : Draft) (role : PointerRole) (register : Register) : Except Error Draft :=
  match d.pointer? role with
  | some bound => d.refuse (.pointerTwice role bound.render register.render)
  | none => .ok { d with pointer? := fun r => if r = role then some register else d.pointer? r }

/-- Give a register a further name that no register has. -/
def nameRegister (d : Draft) (register : Register) (name : String) : Except Error Draft :=
  match Alias.register? d.usage.aliases name with
  | some holder => d.refuse (.aliasTwice name holder.render register.render)
  | none =>
    .ok { d with usage := { d.usage with aliases := Alias.add register name d.usage.aliases } }

def addCallerSaved (d : Draft) (registers : List Register) : Draft :=
  { d with usage := { d.usage with callerSaved := d.usage.callerSaved ++ registers } }

def addCalleeSaved (d : Draft) (registers : List Register) : Draft :=
  { d with usage := { d.usage with calleeSaved := d.usage.calleeSaved ++ registers } }

def addArguments (d : Draft) (registers : List Register) : Draft :=
  { d with usage := { d.usage with arguments := d.usage.arguments ++ registers } }

def addResults (d : Draft) (registers : List Register) : Draft :=
  { d with usage := { d.usage with results := d.usage.results ++ registers } }

/-- Align the stack, between calls and while a call is being prepared. -/
def alignStack (d : Draft) (stack transient : Alignment) : Draft :=
  { d with usage := { d.usage with stack, transientStack := transient } }

def alignFile (d : Draft) (file : Declared Tensor) (alignment : Alignment) : Draft :=
  { d with
    usage := { d.usage with fileAlignments := d.usage.fileAlignments ++ [(file, alignment)] } }

/-- The register with a role that every convention assigns. -/
def required (d : Draft) (role : PointerRole) : Except Error Register :=
  match d.pointer? role with
  | some register => .ok register
  | none => d.refuse (.noPointer role)

def finish (d : Draft) : Except Error Convention := do
  let returnAddress ← d.required .returnAddress
  let stackPointer ← d.required .stackPointer
  let framePointer ← d.required .framePointer
  let globalPointer ← d.required .globalPointer
  return ⟨d.name, returnAddress, stackPointer, framePointer, globalPointer,
    d.pointer? .threadPointer, d.usage⟩

end Draft

def pointer? (c : Convention) : PointerRole → Option Register
  | .returnAddress => some c.returnAddress
  | .stackPointer => some c.stackPointer
  | .framePointer => some c.framePointer
  | .globalPointer => some c.globalPointer
  | .threadPointer => c.threadPointer

def namesOf (c : Convention) (register : Register) : List String :=
  Alias.namesOf c.usage.aliases register

def register? (c : Convention) (name : String) : Option Register :=
  Alias.register? c.usage.aliases name

/-- Every register that the convention refers to, with the use it is put to. -/
def uses (c : Convention) : List (String × Register) :=
  PointerRole.all.filterMap (fun role => (c.pointer? role).map (role.label, ·)) ++
    c.usage.callerSaved.map ("caller-saved register", ·) ++
    c.usage.calleeSaved.map ("callee-saved register", ·) ++
    c.usage.arguments.map ("argument register", ·) ++
    c.usage.results.map ("return register", ·) ++
    c.usage.aliases.map (fun entry => ("aliased register", entry.register))

/-- The special registers under the short names of their roles. -/
def render (c : Convention) : String :=
  let pointers := PointerRole.all.filterMap fun role =>
    (c.pointer? role).map fun register => s!"{role.abbreviation} = {register}"
  s!"abi {c.name}: " ++ ", ".intercalate pointers

instance : ToString Convention := ⟨render⟩

end Convention

end MachineDescription
