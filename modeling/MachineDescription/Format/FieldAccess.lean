import MachineDescription.Format.Field
import MachineDescription.Function

namespace MachineDescription

def Function.evaluatePure (f : Function) (bindings : Bindings) : Except Error Value :=
  ((f.evaluate Reader.none bindings).run ()).1

/-- A derived view of one field, such as a scaled branch offset. The decode function computes the
derived value from the field, the encode function the field from a derived value, and the predicate,
if there is one, tells which derived values can be encoded. -/
structure FieldAccess where
  name : Name
  target : Field
  decoder : Function
  encoder : Function
  predicate : Option Function

namespace FieldAccess

/-- The last parts of the names of the fields that a function refers to, each once. -/
def referenced (f : Function) : List String :=
  (f.body.fieldRefs.map Name.simple).eraseDups

/-- The one field that the decode function refers to. -/
def resolveTarget (name : Name) (fields : List Field) (decoder : Function) : Except Error Field :=
  match referenced decoder with
  | [label] =>
    match fields.find? (·.name.simple == label) with
    | some field => .ok field
    | none => .error (.about name (.format (.unknownTarget label)))
  | labels => .error (.about name (.format (.targetCount labels)))

/-- A predicate takes one parameter and yields a truth value. -/
def isPredicate (f : Function) : Bool :=
  f.params.length == 1 && f.result.isBool

def make (name : Name) (fields : List Field) (decoder encoder : Function)
    (predicate : Option Function) : Except Error FieldAccess := do
  let target ← resolveTarget name fields decoder
  let refuse := fun (fault : FormatFault) => Except.error (Error.about name (.format fault))
  if decoder.params.length ≠ 0 then
    refuse (.decodeParameters decoder.params.length)
  else if encoder.params.length ≠ 1 then
    refuse (.encodeParameters encoder.params.length)
  else if encoder.result.width ≠ target.ty.width then
    refuse (.encodeResult encoder.result target.ty target.name)
  else if predicate.any (fun f => !isPredicate f) then
    refuse .predicateShape
  else
    return ⟨name, target, decoder, encoder, predicate⟩

def ty (a : FieldAccess) : DataType :=
  a.decoder.result

def decode (a : FieldAccess) (word : Value) : Except Error Value := do
  let field ← a.target.extract word
  a.decoder.evaluatePure (Bindings.empty.bind .field a.target.name.simple field)

/-- The value of the field for a derived value. -/
def encode (a : FieldAccess) (v : Value) : Except Error Value := do
  let field ← a.encoder.call [v]
  field.retag a.target.ty

/-- Whether a derived value can be encoded; without a predicate every value can. -/
def isValid (a : FieldAccess) (v : Value) : Except Error Bool :=
  match a.predicate with
  | some predicate => do
    let holds ← predicate.call [v]
    holds.toBool
  | none => .ok true

def render (a : FieldAccess) : String :=
  s!"{a.target.name.simple} -> {a.name.simple}: {a.ty}"

instance : ToString FieldAccess := ⟨render⟩

end FieldAccess

end MachineDescription
