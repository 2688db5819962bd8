import MachineDescription.Expr.Eval

namespace MachineDescription

structure Parameter where
  name : Name
  ty : DataType

namespace Parameter

def bindAll (definition : Name) (params : List Parameter) (args : List Value)
    (bindings : Bindings) : Except Error Bindings :=
  if params.length = args.length then
    (params.zip args).foldlM (fun bindings entry => do
      match entry.2.retag entry.1.ty with
      | .ok v => return bindings.bind .parameter entry.1.name.simple v
      | .error e =>
        throw ((e.withContext "parameter" entry.1.name.qualified).withDefinition definition))
      bindings
  else .error (.about definition (.expr (.argumentCount params.length args.length)))

end Parameter

/-- Errors of a computation belong to a definition. -/
def Run.inDefinition {σ α : Type} (name : Name) (run : Run σ α) : Run σ α :=
  ExceptT.adapt (·.withDefinition name) run

/-- An expression under parameters. Arguments and results are retagged to the declared types, so
only their widths have to agree. -/
structure Function where
  name : Name
  params : List Parameter
  result : DataType
  body : Expr

namespace Function

variable {σ : Type}

def bind (f : Function) (args : List Value) (bindings : Bindings) : Except Error Bindings :=
  Parameter.bindAll f.name f.params args bindings

/-- Evaluate the body; its value is retagged to the declared result type. -/
def evaluate (f : Function) (reader : Reader σ) (bindings : Bindings) : Run σ Value := do
  let v ← Run.inDefinition f.name (f.body.eval reader bindings)
  match v.retag f.result with
  | .ok result => return result
  | .error _ => throw (.about f.name (.expr (.resultType f.result v.ty)))

def apply (f : Function) (reader : Reader σ) (args : List Value) (bindings : Bindings) :
    Run σ Value := do
  let bound ← f.bind args bindings
  f.evaluate reader bound

/-- Call the function without access to resources. -/
def call (f : Function) (args : List Value) : Except Error Value :=
  ((f.apply Reader.none args .empty).run ()).1

end Function

/-- A write to a resource, with expressions for the address and the value. -/
structure Write where
  resource : Name
  address : List Expr
  value : Expr

/-- A write with its address and value computed. -/
structure Effect where
  resource : Name
  address : List Value
  value : Value

/-- A list of writes under parameters. A procedure changes nothing itself, and yields the writes to
be done. -/
structure Procedure where
  name : Name
  params : List Parameter
  writes : List Write

namespace Procedure

variable {σ : Type}

def effect (reader : Reader σ) (bindings : Bindings) (write : Write) : Run σ Effect := do
  let address ← Expr.evalAll reader bindings write.address
  let value ← write.value.eval reader bindings
  return ⟨write.resource, address, value⟩

def effects (p : Procedure) (reader : Reader σ) (args : List Value) : Run σ (List Effect) := do
  let bindings ← Parameter.bindAll p.name p.params args .empty
  Run.inDefinition p.name (p.writes.mapM (effect reader bindings))

end Procedure

end MachineDescription
