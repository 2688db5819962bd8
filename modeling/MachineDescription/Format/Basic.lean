import MachineDescription.Declared
import MachineDescription.Format.FieldAccess
import MachineDescription.Slice.Build

namespace MachineDescription

/-- The layout of an instruction word: named fields, and derived views over them. Fields may be
scattered and may overlap. The members keep the order of their declaration and are found under the
label they were declared with; the last part of a member's qualified name is its label cleaned of
blanks and dots. -/
structure Format where
  name : Name
  width : Nat
  fields : List (Labelled Field)
  accesses : List (Labelled FieldAccess)
  within : ∀ m ∈ fields, m.item.slice.msb < width
  distinct : (Labelled.labels fields ++ Labelled.labels accesses).Nodup

namespace Format

def empty (name : Name) (width : Nat) : Format :=
  ⟨name, width, [], [], by simp, by simp [Labelled.labels]⟩

def wordType (f : Format) : DataType :=
  .bits f.width

def field? (f : Format) (label : String) : Option Field :=
  (Labelled.find? f.fields label).map (·.item)

def access? (f : Format) (label : String) : Option FieldAccess :=
  (Labelled.find? f.accesses label).map (·.item)

def declares (f : Format) (label : String) : Bool :=
  (Labelled.labels f.fields).contains label || (Labelled.labels f.accesses).contains label

theorem not_mem_labels {f : Format} {label : String} (fresh : ¬f.declares label = true) :
    label ∉ Labelled.labels f.fields ++ Labelled.labels f.accesses := by
  simpa [declares] using fresh

def addField (f : Format) (label : String) (slice : Slice) (ty : DataType) : Except Error Format :=
  let name := f.name.append label
  if fresh : f.declares label then .error (.about name (.format (.declaredTwice label f.name)))
  else if inside : slice.msb < f.width then
    match made : Field.make name slice ty with
    | .error e => .error e
    | .ok field =>
      .ok { f with
        fields := f.fields ++ [⟨label, field⟩]
        within := by
          intro m member
          rcases List.mem_append.mp member with old | new
          · exact f.within m old
          · rw [List.mem_singleton.mp new, (Field.eq_of_make made).2.1]
            exact inside
        distinct := by
          have old := f.distinct
          have new := not_mem_labels fresh
          simp only [Labelled.labels, List.map_append, List.map_cons, List.map_nil,
            List.append_assoc, List.cons_append, List.nil_append] at old new ⊢
          exact List.perm_middle.nodup_iff.mpr (List.nodup_cons.mpr ⟨new, old⟩) }
  else .error (.about name (.format (.beyondFormat label slice f.width)))

def addBits (f : Format) (label : String) (msb lsb : Nat) : Except Error Format := do
  let slice ← Slice.ofIndices msb lsb
  f.addField label slice (.bits slice.size)

/-- Declare a derived view of one of the fields declared so far. -/
def addAccess (f : Format) (label : String) (decoder encoder : Function)
    (predicate : Option Function) : Except Error Format :=
  let name := f.name.append label
  if fresh : f.declares label then .error (.about name (.format (.declaredTwice label f.name)))
  else do
    let access ← FieldAccess.make name (f.fields.map (·.item)) decoder encoder predicate
    return { f with
      accesses := f.accesses ++ [⟨label, access⟩]
      distinct := by
        have old := f.distinct
        have new := not_mem_labels fresh
        simp only [Labelled.labels, List.map_append, List.map_cons, List.map_nil] at old new ⊢
        rw [← List.append_assoc]
        exact List.perm_append_comm.nodup_iff.mpr (List.nodup_cons.mpr ⟨new, old⟩) }

/-- The bits of the word that belong to no field, in ascending order. -/
def uncovered (f : Format) : List Nat :=
  (List.range f.width).filter fun bit => !f.fields.any (·.item.slice.contains bit)

/-- The pairs of fields with a common bit, in the order of declaration. -/
def overlapping (f : Format) : List (Field × Field) :=
  (pairs (f.fields.map (·.item))).filter fun pair => pair.1.slice.overlaps pair.2.slice

def render (f : Format) : String :=
  s!"format {f.name}: {f.wordType} \x7b" ++
    ",".intercalate (f.fields.map fun m => " " ++ m.item.render) ++ " \x7d"

instance : ToString Format := ⟨render⟩

end Format

end MachineDescription
