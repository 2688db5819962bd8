import MachineDescription.Value.Bitwise

namespace MachineDescription

/-- A typed slice of a word. Its value is read out of a word and written into a word at the
positions of the slice. -/
structure Field where
  name : Name
  slice : Slice
  ty : DataType
  size_eq : slice.size = ty.width

namespace Field

/-- The field of a slice and a type of the same width. -/
def make (name : Name) (slice : Slice) (ty : DataType) : Except Error Field :=
  if fits : slice.size = ty.width then .ok ⟨name, slice, ty, fits⟩
  else .error (.about name (.format (.fieldWidth ty slice)))

theorem eq_of_make {name : Name} {slice : Slice} {ty : DataType} {f : Field}
    (made : make name slice ty = .ok f) : f.name = name ∧ f.slice = slice ∧ f.ty = ty := by
  unfold make at made
  split at made
  · cases made
    exact ⟨rfl, rfl, rfl⟩
  · cases made

/-- The positions of the field in a word, each with the bit that a value puts there; the least
significant bit of the value comes first. -/
def placed (f : Field) (v : Value) : List (Nat × Bool) :=
  f.slice.positions.zipIdx.map fun entry => (entry.1, v.bit entry.2)

def extract (f : Field) (word : Value) : Except Error Value := do
  let bits ← word.slice f.slice
  match bits.retag f.ty with
  | .ok v => return v
  | .error e => throw (e.withDefinition f.name)

def insert (f : Field) (word v : Value) : Except Error Value := do
  let v ← match v.retag f.ty with
    | .ok v => pure v
    | .error e => throw (e.withDefinition f.name)
  if f.slice.msb < word.width then
    return .wrap word.ty
      ((f.placed v).foldl (fun bits entry => Bits.put bits entry.1 entry.2) word.pattern)
  else throw (.about f.name (.format (.beyondWord f.name f.slice word.width)))

def render (f : Field) : String :=
  s!"{f.name.simple}{f.slice}: {f.ty}"

instance : ToString Field := ⟨render⟩

end Field

end MachineDescription
