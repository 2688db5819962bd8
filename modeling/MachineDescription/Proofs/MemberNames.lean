import MachineDescription.Proofs.Construction
import Mathlib.Data.List.Nodup

namespace MachineDescription

namespace Name

@[simp]
theorem simple_append (name : Name) (label : String) :
    (name.append label).simple = cleanPart label := by
  simp [simple, append]

end Name

namespace Labelled

variable {α : Type} {members : List (Labelled α)} {m : Labelled α}

theorem find?_of_mem (distinct : (labels members).Nodup) (member : m ∈ members) :
    find? members m.label = some m := by
  cases found : find? members m.label with
  | none => exact absurd (List.mem_map_of_mem member) (find?_eq_none.mp found)
  | some n =>
    obtain ⟨inside, same⟩ := find?_eq_some found
    rw [List.inj_on_of_nodup_map distinct inside member same]

/-- Each item has the name of its owner with its own label appended. -/
def Named (owner : Name) (nameOf : α → Name) (members : List (Labelled α)) : Prop :=
  ∀ m ∈ members, nameOf m.item = owner.append m.label

namespace Named

variable {owner : Name} {nameOf : α → Name}

theorem snoc (named : Named owner nameOf members) {label : String} {item : α}
    (last : nameOf item = owner.append label) :
    Named owner nameOf (members ++ [⟨label, item⟩]) := by
  intro m member
  rcases List.mem_append.mp member with before | new
  · exact named m before
  · rw [List.mem_singleton.mp new]
    exact last

/-- A member is found under its own name exactly if cleaning does not change its label, as it was
entered under the label and named with what cleaning leaves of it. -/
theorem find?_iff (named : Named owner nameOf members) (distinct : (labels members).Nodup)
    (member : m ∈ members) :
    find? members (nameOf m.item).simple = some m ↔ Name.cleanPart m.label = m.label := by
  rw [named m member, Name.simple_append]
  constructor
  · intro found
    exact (find?_eq_some found).2.symm
  · intro clean
    rw [clean]
    exact find?_of_mem distinct member

/-- Members are found under their names as far as their labels are clean. -/
theorem find?_of_clean (named : Named owner nameOf members) (distinct : (labels members).Nodup)
    (clean : ∀ label ∈ labels members, Name.cleanPart label = label) (member : m ∈ members) :
    (find? members (nameOf m.item).simple).map (·.item) = some m.item := by
  have found := (named.find?_iff distinct member).mpr (clean _ (List.mem_map_of_mem member))
  rw [found, Option.map_some]

end Named

end Labelled

namespace FieldAccess

variable {name : Name} {fields : List Field} {decoder encoder : Function}
  {predicate : Option Function} {a : FieldAccess}

/-- A view has the target of its decode function, and its encode function yields that width. -/
theorem make_eq_ok (made : make name fields decoder encoder predicate = .ok a) :
    resolveTarget name fields decoder = .ok a.target ∧
      encoder.result.width = a.target.ty.width ∧
      a = ⟨name, a.target, decoder, encoder, predicate⟩ := by
  obtain ⟨target, resolved, made⟩ := exists_ok_of_bind made
  split at made
  · cases made
  · split at made
    · cases made
    · split at made
      · cases made
      · rename_i width
        split at made
        · cases made
        · cases made
          exact ⟨resolved, Decidable.not_not.mp width, rfl⟩

theorem eq_of_make (made : make name fields decoder encoder predicate = .ok a) :
    a.name = name ∧ a.decoder = decoder ∧ a.encoder = encoder ∧ a.predicate = predicate := by
  obtain ⟨_, _, parts⟩ := make_eq_ok made
  rw [parts]
  exact ⟨rfl, rfl, rfl, rfl⟩

end FieldAccess

namespace Format

/-- The label, slice and type of a field to declare, if the slice can be made. -/
def Declaration.field? : Declaration → Option (String × Slice × DataType)
  | .field label slice ty => some (label, slice, ty)
  | .bits label msb lsb =>
    (Slice.ofIndices msb lsb).toOption.map fun slice => (label, slice, .bits slice.size)
  | .access .. => none

/-- The label and the functions of a view to declare. -/
def Declaration.access? : Declaration → Option (String × Function × Function × Option Function)
  | .access label decoder encoder predicate => some (label, decoder, encoder, predicate)
  | .field .. | .bits .. => none

/-- What the fields were declared with. -/
def fieldParts (f : Format) : List (String × Slice × DataType) :=
  f.fields.map fun m => (m.label, m.item.slice, m.item.ty)

/-- What the views were declared with. -/
def accessParts (f : Format) : List (String × Function × Function × Option Function) :=
  f.accesses.map fun m => (m.label, m.item.decoder, m.item.encoder, m.item.predicate)

def labels (f : Format) : List String :=
  Labelled.labels f.fields ++ Labelled.labels f.accesses

def memberNames (f : Format) : List Name :=
  f.fields.map (·.item.name) ++ f.accesses.map (·.item.name)

/-- Each member has the name of the format with its own label appended. -/
structure Named (f : Format) : Prop where
  field : Labelled.Named f.name Field.name f.fields
  access : Labelled.Named f.name FieldAccess.name f.accesses

theorem addField_eq_ok {f g : Format} {label : String} {slice : Slice} {ty : DataType}
    (made : f.addField label slice ty = .ok g) :
    ∃ field : Field, field.name = f.name.append label ∧ field.slice = slice ∧ field.ty = ty ∧
      g.name = f.name ∧ g.width = f.width ∧ g.fields = f.fields ++ [⟨label, field⟩] ∧
      g.accesses = f.accesses := by
  unfold addField at made
  dsimp only at made
  split at made
  · cases made
  · split at made
    · split at made
      · cases made
      · rename_i field made'
        cases made
        obtain ⟨name, same, type⟩ := Field.eq_of_make made'
        exact ⟨field, name, same, type, rfl, rfl, rfl, rfl⟩
    · cases made

theorem addAccess_eq_ok {f g : Format} {label : String} {decoder encoder : Function}
    {predicate : Option Function} (made : f.addAccess label decoder encoder predicate = .ok g) :
    ∃ access : FieldAccess, access.name = f.name.append label ∧ access.decoder = decoder ∧
      access.encoder = encoder ∧ access.predicate = predicate ∧
      g.name = f.name ∧ g.width = f.width ∧ g.fields = f.fields ∧
      g.accesses = f.accesses ++ [⟨label, access⟩] := by
  unfold addAccess at made
  dsimp only at made
  split at made
  · cases made
  · obtain ⟨access, made', made⟩ := exists_ok_of_bind made
    cases made
    obtain ⟨name, decodes, encodes, decides⟩ := FieldAccess.eq_of_make made'
    exact ⟨access, name, decodes, encodes, decides, rfl, rfl, rfl, rfl⟩

/-- What a declaration that succeeds does: one member is added at the end. -/
structure Grows (f g : Format) (d : Declaration) : Prop where
  name : g.name = f.name
  width : g.width = f.width
  fields : g.fieldParts = f.fieldParts ++ d.field?.toList
  accesses : g.accessParts = f.accessParts ++ d.access?.toList
  named : f.Named → g.Named

theorem grows_of_addField {f g : Format} {d : Declaration} {label : String} {slice : Slice}
    {ty : DataType} (made : f.addField label slice ty = .ok g)
    (asField : d.field? = some (label, slice, ty)) (noAccess : d.access? = none) : Grows f g d := by
  obtain ⟨field, named, rfl, rfl, name, width, fields, accesses⟩ := addField_eq_ok made
  refine ⟨name, width, ?_, ?_, fun old => ⟨?_, ?_⟩⟩
  · simp [fieldParts, fields, asField]
  · simp [accessParts, accesses, noAccess]
  · rw [fields, name]
    exact old.field.snoc named
  · rw [accesses, name]
    exact old.access

theorem grows_of_addAccess {f g : Format} {label : String} {decoder encoder : Function}
    {predicate : Option Function} (made : f.addAccess label decoder encoder predicate = .ok g) :
    Grows f g (.access label decoder encoder predicate) := by
  obtain ⟨access, named, rfl, rfl, rfl, name, width, fields, accesses⟩ := addAccess_eq_ok made
  refine ⟨name, width, ?_, ?_, fun old => ⟨?_, ?_⟩⟩
  · simp [fieldParts, fields, Declaration.field?]
  · simp [accessParts, accesses, Declaration.access?]
  · rw [fields, name]
    exact old.field
  · rw [accesses, name]
    exact old.access.snoc named

/-- Every declaration that succeeds adds one member under its label and changes nothing else. -/
theorem grows_of_declare {f g : Format} {d : Declaration} (made : f.declare d = .ok g) :
    Grows f g d := by
  cases d with
  | field label slice ty => exact grows_of_addField made rfl rfl
  | bits label msb lsb =>
    obtain ⟨slice, sliced, made⟩ := exists_ok_of_bind made
    refine grows_of_addField made ?_ rfl
    simp [Declaration.field?, sliced, Except.toOption]
  | access label decoder encoder predicate => exact grows_of_addAccess made

theorem width_built (name : Name) (width : Nat) (declarations : List Declaration) :
    (built name width declarations).width = width :=
  attempts_induction (fun _ _ _ kept made => (grows_of_declare made).width.trans kept) rfl
    declarations

theorem named_built (name : Name) (width : Nat) (declarations : List Declaration) :
    (built name width declarations).Named := by
  refine attempts_induction (fun _ _ _ kept made => (grows_of_declare made).named kept) ?_
    declarations
  exact ⟨fun _ member => (nomatch member), fun _ member => (nomatch member)⟩

/-- Fields stand in the order of the declarations that succeeded. -/
theorem fieldParts_built (name : Name) (width : Nat) (declarations : List Declaration) :
    (built name width declarations).fieldParts =
      (accepted declare (empty name width) declarations).filterMap Declaration.field? := by
  have added : ∀ before d after, declare before d = .ok after →
      after.fieldParts = before.fieldParts ++ d.field?.toList :=
    fun _ _ _ made => (grows_of_declare made).fields
  exact attempts_collects added (empty name width) declarations

theorem accessParts_built (name : Name) (width : Nat) (declarations : List Declaration) :
    (built name width declarations).accessParts =
      (accepted declare (empty name width) declarations).filterMap Declaration.access? := by
  have added : ∀ before d after, declare before d = .ok after →
      after.accessParts = before.accessParts ++ d.access?.toList :=
    fun _ _ _ made => (grows_of_declare made).accesses
  exact attempts_collects added (empty name width) declarations

namespace Named

variable {f : Format}

/-- The name of a member is that of the format with the cleaned label as one more part. -/
theorem memberNames_eq (named : f.Named) : f.memberNames = f.labels.map f.name.append := by
  have fields := List.map_congr_left named.field
  have accesses := List.map_congr_left named.access
  simp only [memberNames, labels, Labelled.labels, List.map_append, List.map_map, fields, accesses]
  rfl

/-- Members are told apart by name exactly if their labels are, after cleaning. -/
theorem nodup_memberNames_iff (named : f.Named) :
    f.memberNames.Nodup ↔ (f.labels.map Name.cleanPart).Nodup := by
  have injective : Function.Injective fun part =>
      ({ f.name with parts := f.name.parts ++ [part] } : Name) := by
    intro part other same
    simpa using congrArg Name.parts same
  rw [named.memberNames_eq, ← List.nodup_map_iff injective, List.map_map]
  rfl

end Named

/-- Cleaning leaves the labels of all members as they are. -/
def Clean (f : Format) : Prop :=
  ∀ label ∈ f.labels, Name.cleanPart label = label

theorem Clean.nodup_memberNames {f : Format} (clean : f.Clean) (named : f.Named) :
    f.memberNames.Nodup := by
  rw [named.nodup_memberNames_iff, List.map_congr_left clean, List.map_id']
  exact f.distinct

end Format

end MachineDescription
