import MachineDescription.Format.Basic
import MachineDescription.Pattern.Basic

namespace MachineDescription

/-- A constant for a field of a format, under the label of the field. -/
structure Binding where
  label : String
  field : Field
  value : Value
  ty_eq : value.ty = field.ty

namespace Binding

def placed (b : Binding) : List (Nat × Bool) :=
  b.field.placed b.value

end Binding

/-- The first bit among `added` that `fixed` fixes to the other value. -/
def conflictingBit? (fixed added : List (Nat × Bool)) : Option Nat :=
  (added.find? fun entry => fixed.any fun old => old.1 == entry.1 && old.2 != entry.2).map (·.1)

/-- Constants for some fields of a format. Fields may overlap, but two bound fields agree on every
bit they share, so there is a word from which all constants can be read. The fields that are left
are the operands. -/
structure Encoding where
  name : Name
  format : Declared Format
  bindings : List Binding
  known : ∀ b ∈ bindings, ⟨b.label, b.field⟩ ∈ format.item.fields
  distinct : (bindings.map (·.label)).Nodup
  /-- A later binding fixes no bit to another value than an earlier one. -/
  consistent : bindings.Pairwise fun b c => conflictingBit? b.placed c.placed = none

namespace Encoding

def empty (name : Name) (format : Declared Format) : Encoding :=
  ⟨name, format, [], by simp, by simp, List.Pairwise.nil⟩

def binding? (e : Encoding) (label : String) : Option Binding :=
  e.bindings.find? (·.label == label)

/-- The first binding that a value of a field contradicts, and the bit. -/
def firstConflict? (e : Encoding) (field : Field) (v : Value) : Option (Binding × Nat) :=
  e.bindings.findSome? fun b => (conflictingBit? b.placed (field.placed v)).map (b, ·)

def refuse {α : Type} (e : Encoding) (fault : EncodingFault) : Except Error α :=
  .error (.about e.name (.encoding fault))

/-- Bind a constant to a field. Their types must agree exactly. -/
def bind (e : Encoding) (label : String) (v : Value) : Except Error Encoding :=
  match found : Labelled.find? e.format.item.fields label with
  | none => e.refuse (.noField e.format.item.name label)
  | some m =>
    match bound : e.binding? label with
    | some b => e.refuse (.boundTwice label b.value v)
    | none =>
      if typed : v.ty = m.item.ty then
        match clash : e.firstConflict? m.item v with
        | some (b, bit) => e.refuse (.bitConflict label bit b.field.name.simple b.value v)
        | none =>
          .ok { e with
            bindings := e.bindings ++ [⟨label, m.item, v, typed⟩]
            known := by
              have member := Labelled.find?_eq_some found
              intro b inside
              rcases List.mem_append.mp inside with old | new
              · exact e.known b old
              · rw [List.mem_singleton.mp new, ← member.2]
                exact member.1
            distinct := by
              have fresh : label ∉ e.bindings.map (·.label) := by
                simpa [binding?] using bound
              rw [List.map_append]
              exact List.perm_append_comm.nodup_iff.mpr
                (List.nodup_cons.mpr ⟨fresh, e.distinct⟩)
            consistent := by
              refine List.pairwise_append.mpr ⟨e.consistent, List.pairwise_singleton _ _, ?_⟩
              intro b old c new
              rw [List.mem_singleton.mp new]
              simp only [firstConflict?, List.findSome?_eq_none_iff,
                Option.map_eq_none_iff] at clash
              exact clash b old }
      else e.refuse (.typeDiffers label m.item.ty v.ty)

def bindInteger (e : Encoding) (label : String) (n : Int) : Except Error Encoding :=
  match e.format.item.field? label with
  | none => e.refuse (.noField e.format.item.name label)
  | some field =>
    match Value.ofInteger n field.ty with
    | .ok v => e.bind label v
    | .error err => .error (err.withDefinition e.name)

def constant? (e : Encoding) (label : String) : Option Value :=
  (e.binding? label).map (·.value)

/-- The fields that are left to operands, in the order of the format. -/
def operands (e : Encoding) : List Field :=
  (e.format.item.fields.filter fun m => (e.binding? m.label).isNone).map (·.item)

/-- The pattern that fixes the bits of the bound fields. -/
def pattern (e : Encoding) : Pattern :=
  (e.bindings.flatMap Binding.placed).foldl (fun p entry => p.fix entry.1 entry.2)
    (Pattern.wildcard e.format.item.width)

def isOperand (e : Encoding) (label : String) : Bool :=
  (e.format.item.field? label).isSome && (e.binding? label).isNone

/-- Insert into a word, for each field, the first operand under its name. -/
def insertOperands (e : Encoding) (operands : List (String × Value)) :
    List Field → Value → Except Error Value
  | [], word => .ok word
  | field :: rest, word =>
    match operands.lookup field.name.simple with
    | none => e.refuse (.operandMissing field.name.simple)
    | some v => do
      let word ← field.insert word v
      e.insertOperands operands rest word

/-- The word of the constants and of one operand for each field that is left. -/
def assemble (e : Encoding) (operands : List (String × Value)) : Except Error Value :=
  match operands.find? (fun operand => !e.isOperand operand.1) with
  | some operand => e.refuse (.notOperand operand.1 e.format.item.name)
  | none => e.insertOperands operands e.operands e.pattern.value

def render (e : Encoding) : String :=
  s!"encoding {e.name}: {e.format.item.name} \x7b" ++
    ",".intercalate (e.bindings.map fun b => s!" {b.field.name.simple} = {b.value.binary}") ++
    " \x7d"

instance : ToString Encoding := ⟨render⟩

end Encoding

end MachineDescription
