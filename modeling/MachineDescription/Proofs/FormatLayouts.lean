import MachineDescription.Proofs.Evaluation
import MachineDescription.Proofs.MemberNames
import Mathlib.Data.List.AList

namespace MachineDescription

/-- Items in the order in which they came, and an index with the place of each label. -/
structure Table (α : Type) where
  items : List α
  index : AList fun _ : String => Nat

namespace Table

variable {α : Type} {t : Table α} {members : List (Labelled α)} {label : String}

def empty : Table α :=
  ⟨[], ∅⟩

def has (t : Table α) (label : String) : Bool :=
  (t.index.lookup label).isSome

/-- The item in the place that the index gives for a label. -/
def find? (t : Table α) (label : String) : Option α :=
  (t.index.lookup label).bind fun place => t.items[place]?

/-- The next item will be found under the label. -/
def announce (t : Table α) (label : String) : Table α :=
  { t with index := t.index.insert label t.items.length }

def push (t : Table α) (item : α) : Table α :=
  { t with items := t.items ++ [item] }

/-- A table holds labelled members: their items in this order, and in the index for each label the
place of the first member that has it. -/
structure Holds (t : Table α) (members : List (Labelled α)) : Prop where
  items : t.items = members.map (·.item)
  placed : ∀ label, t.index.lookup label = members.findIdx? (·.label == label)

namespace Holds

theorem empty : (empty : Table α).Holds [] :=
  ⟨rfl, fun _ => rfl⟩

/-- Going by the index is the same as searching the labels from the front. -/
theorem find?_eq (holds : t.Holds members) (label : String) :
    t.find? label = (Labelled.find? members label).map (·.item) := by
  rw [Table.find?, holds.placed, holds.items, Labelled.find?, List.find?_eq_bind_findIdx?_getElem?]
  cases members.findIdx? (·.label == label) with
  | none => rfl
  | some place => exact List.getElem?_map

theorem has_eq (holds : t.Holds members) (label : String) :
    t.has label = (Labelled.labels members).contains label := by
  rw [has, holds.placed, Bool.eq_iff_iff, List.findIdx?_isSome, List.contains_iff_mem,
    Labelled.labels]
  simp

/-- An item that is announced and then pushed under a new label comes last and is found there. -/
theorem entered (holds : t.Holds members) (fresh : label ∉ Labelled.labels members) (item : α) :
    ((t.announce label).push item).Holds (members ++ [⟨label, item⟩]) where
  items := by
    rw [List.map_append, ← holds.items]
    rfl
  placed other := by
    have count : t.items.length = members.length := by rw [holds.items, List.length_map]
    change (t.index.insert label t.items.length).lookup other = _
    rw [List.findIdx?_append, ← holds.placed, count]
    by_cases same : other = label
    · subst same
      have unused : t.index.lookup other = none := by
        rw [holds.placed, List.findIdx?_eq_none_iff]
        intro m member
        exact beq_false_of_ne fun named => fresh (named ▸ List.mem_map_of_mem member)
      rw [AList.lookup_insert, unused]
      simp
    · rw [AList.lookup_insert_ne same]
      simp [Ne.symm same]

end Holds

end Table

namespace Format

/-- A format in the making. A declaration writes the index and the items of a table one after the
other, and nothing takes back what it has written before it fails. -/
structure Layout where
  name : Name
  width : Nat
  fields : Table Field
  accesses : Table FieldAccess

namespace Layout

variable {l : Layout} {f : Format} {label : String}

def empty (name : Name) (width : Nat) : Layout :=
  ⟨name, width, .empty, .empty⟩

def declares (l : Layout) (label : String) : Bool :=
  l.fields.has label || l.accesses.has label

def checkFresh (label : String) (name : Name) : Run Layout Unit := do
  let l ← get
  if l.declares label then throw (.about name (.format (.declaredTwice label l.name)))

def changeFields (change : Table Field → Table Field) (l : Layout) : Layout :=
  { l with fields := change l.fields }

def changeAccesses (change : Table FieldAccess → Table FieldAccess) (l : Layout) : Layout :=
  { l with accesses := change l.accesses }

/-- Enter a member, if it could be made, into the table that is changed in the given way. -/
def enter {α : Type} (change : (Table α → Table α) → Layout → Layout) (label : String)
    (made : Except Error α) : Run Layout Unit := do
  let item ← liftM made
  modify (change (·.announce label))
  modify (change (·.push item))

def addField (label : String) (slice : Slice) (ty : DataType) : Run Layout Unit := do
  let l ← get
  let name := l.name.append label
  checkFresh label name
  if slice.msb < l.width then enter changeFields label (Field.make name slice ty)
  else throw (.about name (.format (.beyondFormat label slice l.width)))

def addBits (label : String) (msb lsb : Nat) : Run Layout Unit := do
  let slice ← liftM (Slice.ofIndices msb lsb)
  addField label slice (.bits slice.size)

def addAccess (label : String) (decoder encoder : Function) (predicate : Option Function) :
    Run Layout Unit := do
  let l ← get
  let name := l.name.append label
  checkFresh label name
  enter changeAccesses label (FieldAccess.make name l.fields.items decoder encoder predicate)

def declare : Declaration → Run Layout Unit
  | .field label slice ty => addField label slice ty
  | .bits label msb lsb => addBits label msb lsb
  | .access label decoder encoder predicate => addAccess label decoder encoder predicate

/-- What a declaration yields. -/
def answer (l : Layout) (d : Declaration) : Except Error Unit :=
  ((declare d).run l).1

/-- What a declaration leaves behind, also if it fails. -/
def after (l : Layout) (d : Declaration) : Layout :=
  ((declare d).run l).2

/-- The layout of a sequence of declarations. -/
def built (name : Name) (width : Nat) (declarations : List Declaration) : Layout :=
  declarations.foldl after (empty name width)

theorem run_checkFresh (l : Layout) (label : String) (name : Name) :
    (checkFresh label name).run l =
      if l.declares label then (.error (.about name (.format (.declaredTwice label l.name))), l)
      else (.ok (), l) := by
  change (if l.declares label then _ else _ : Run Layout Unit).run l = _
  split <;> rfl

/-- A member that could be made is announced in the index and then pushed. -/
theorem run_enter {α : Type} {change : (Table α → Table α) → Layout → Layout}
    {made : Except Error α} {item : α} (ok : made = .ok item) :
    (enter change label made).run l =
      (.ok (), change (·.push item) (change (·.announce label) l)) := by
  rw [ok]
  rfl

/-- Nothing is announced for a member that could not be made. -/
theorem run_enter_of_error {α : Type} {change : (Table α → Table α) → Layout → Layout}
    {made : Except Error α} {e : Error} (failed : made = .error e) :
    (enter change label made).run l = (.error e, l) := by
  rw [failed]
  rfl

/-- Nothing is written before the label and the slice have passed their checks. -/
theorem run_addField (l : Layout) (label : String) (slice : Slice) (ty : DataType) :
    (addField label slice ty).run l =
      if l.declares label then
        (.error (.about (l.name.append label) (.format (.declaredTwice label l.name))), l)
      else if slice.msb < l.width then
        (enter changeFields label (Field.make (l.name.append label) slice ty)).run l
      else
        (.error (.about (l.name.append label) (.format (.beyondFormat label slice l.width))),
          l) := by
  change (checkFresh label (l.name.append label) >>= fun _ => _).run l = _
  rw [Run.run_bind, run_checkFresh]
  by_cases taken : l.declares label = true
  · rw [if_pos taken, if_pos taken]
  · rw [if_neg taken, if_neg taken]
    change (if slice.msb < l.width then _ else _ : Run Layout Unit).run l = _
    split <;> rfl

theorem run_addAccess (l : Layout) (label : String) (decoder encoder : Function)
    (predicate : Option Function) :
    (addAccess label decoder encoder predicate).run l =
      if l.declares label then
        (.error (.about (l.name.append label) (.format (.declaredTwice label l.name))), l)
      else
        (enter changeAccesses label (FieldAccess.make (l.name.append label) l.fields.items decoder
          encoder predicate)).run l := by
  change (checkFresh label (l.name.append label) >>= fun _ => _).run l = _
  rw [Run.run_bind, run_checkFresh]
  by_cases taken : l.declares label = true
  · rw [if_pos taken, if_pos taken]
  · rw [if_neg taken, if_neg taken]

/-- The tables hold the members of a format. -/
structure Shows (l : Layout) (f : Format) : Prop where
  name : l.name = f.name
  width : l.width = f.width
  fields : l.fields.Holds f.fields
  accesses : l.accesses.Holds f.accesses

namespace Shows

theorem empty (name : Name) (width : Nat) : (empty name width).Shows (.empty name width) :=
  ⟨rfl, rfl, .empty, .empty⟩

/-- Fields and views share one set of labels. -/
theorem declares_eq (shows : l.Shows f) (label : String) : l.declares label = f.declares label := by
  rw [Layout.declares, Format.declares, shows.fields.has_eq, shows.accesses.has_eq]

theorem follows_addField (shows : l.Shows f) (label : String) (slice : Slice) (ty : DataType) :
    Follows Shows l (f.addField label slice ty) ((addField label slice ty).run l) := by
  rw [run_addField, shows.declares_eq, shows.name, shows.width]
  unfold Format.addField
  dsimp only
  split
  · exact .refused _
  · rename_i fresh
    split
    · split
      · rename_i e refused
        rw [run_enter_of_error refused]
        exact .refused e
      · rename_i field made
        have unused : label ∉ Labelled.labels f.fields :=
          fun inside => Format.not_mem_labels fresh (List.mem_append_left _ inside)
        rw [run_enter made]
        exact .made ⟨shows.name, shows.width, shows.fields.entered unused field, shows.accesses⟩
    · exact .refused _

theorem follows_addAccess (shows : l.Shows f) (label : String) (decoder encoder : Function)
    (predicate : Option Function) :
    Follows Shows l (f.addAccess label decoder encoder predicate)
      ((addAccess label decoder encoder predicate).run l) := by
  rw [run_addAccess, shows.declares_eq, shows.name, shows.fields.items]
  unfold Format.addAccess
  dsimp only
  split
  · exact .refused _
  · rename_i fresh
    cases FieldAccess.make (f.name.append label) (f.fields.map (·.item)) decoder encoder
      predicate with
    | error e => exact .refused e
    | ok access =>
      have unused : label ∉ Labelled.labels f.accesses :=
        fun inside => Format.not_mem_labels fresh (List.mem_append_right _ inside)
      exact .made ⟨shows.name, shows.width, shows.fields, shows.accesses.entered unused access⟩

/-- A layout does what the format does that it shows. -/
theorem follows (shows : l.Shows f) (d : Declaration) :
    Follows Shows l (f.declare d) ((declare d).run l) := by
  cases d with
  | field label slice ty => exact shows.follows_addField label slice ty
  | bits label msb lsb =>
    change Follows Shows l (Slice.ofIndices msb lsb >>= fun slice => _)
      ((liftM (Slice.ofIndices msb lsb) >>= fun slice => _ : Run Layout Unit).run l)
    cases Slice.ofIndices msb lsb with
    | error e => exact .refused e
    | ok slice => exact shows.follows_addField label slice (.bits slice.size)
  | access label decoder encoder predicate =>
    exact shows.follows_addAccess label decoder encoder predicate

end Shows

/-- The layout and the format of the same declarations, failing ones among them. -/
theorem shows_built (name : Name) (width : Nat) (declarations : List Declaration) :
    (built name width declarations).Shows (.built name width declarations) :=
  Follows.foldl (fun _ _ shows => shows.follows) (.empty name width) declarations

end Layout

/-- Whatever is declared, index and items stay in step, a layout answers like the format, and a
declaration that fails leaves the layout as it was. Fields lie within the word, have the width of
their type and keep their order. Names tell members apart, and a member is found under its own name,
as far as labels are clean. -/
theorem members_of_declarations (name : Name) (width : Nat) (declarations : List Declaration) :
    let l := Layout.built name width declarations
    let f := built name width declarations
    l.Shows f ∧ (∀ label, l.fields.find? label = f.field? label) ∧
      (∀ label, l.accesses.find? label = f.access? label) ∧
      (∀ d, l.answer d = (f.declare d).map fun _ => ()) ∧
      (∀ d e, l.answer d = .error e → l.after d = l) ∧
      (f.memberNames.Nodup ↔ (f.labels.map Name.cleanPart).Nodup) ∧
      (∀ m ∈ f.fields,
        Labelled.find? f.fields m.item.name.simple = some m ↔ Name.cleanPart m.label = m.label) ∧
      (∀ m ∈ f.accesses,
        Labelled.find? f.accesses m.item.name.simple = some m ↔ Name.cleanPart m.label = m.label) ∧
      (f.Clean → f.memberNames.Nodup ∧
        (∀ m ∈ f.fields, f.field? m.item.name.simple = some m.item) ∧
        ∀ m ∈ f.accesses, f.access? m.item.name.simple = some m.item) ∧
      (∀ m ∈ f.fields, m.item.slice.msb < width ∧ m.item.slice.size = m.item.ty.width) ∧
      f.fieldParts =
        (accepted declare (empty name width) declarations).filterMap Declaration.field? ∧
      f.accessParts =
        (accepted declare (empty name width) declarations).filterMap Declaration.access? := by
  intro l f
  have shows : l.Shows f := Layout.shows_built name width declarations
  have named : f.Named := named_built name width declarations
  obtain ⟨fields, accesses, _⟩ := List.nodup_append.mp f.distinct
  refine ⟨shows, shows.fields.find?_eq, shows.accesses.find?_eq, fun d => (shows.follows d).fst_eq,
    fun d e => (shows.follows d).snd_of_error, named.nodup_memberNames_iff,
    fun m => named.field.find?_iff fields, fun m => named.access.find?_iff accesses, ?_, ?_,
    fieldParts_built name width declarations, accessParts_built name width declarations⟩
  · intro clean
    obtain ⟨cleanFields, cleanAccesses⟩ := List.forall_mem_append.mp clean
    exact ⟨clean.nodup_memberNames named, fun m => named.field.find?_of_clean fields cleanFields,
      fun m => named.access.find?_of_clean accesses cleanAccesses⟩
  · intro m member
    have inside := f.within m member
    rw [width_built] at inside
    exact ⟨inside, m.item.size_eq⟩

/-- Two labels that are cleaned to the same part: both fields are declared, with one name, and the
name leads to the first of them. A field whose only label is not clean is not found at all. -/
theorem dotted_label_shares_name :
    let f := built (.ofParts ["F"]) 8 [.bits "a" 7 4, .bits ".a" 3 0]
    let g := built (.ofParts ["G"]) 8 [.bits ".b" 3 0]
    ¬f.memberNames.Nodup ∧
      f.fields.map (fun m => (m.item.name.simple, m.item.slice.msb)) = [("a", 7), ("a", 3)] ∧
      (f.field? "a").map (·.slice.msb) = some 7 ∧
      g.fields.map (·.item.name.simple) = ["b"] ∧ g.field? "b" = none := by
  refine ⟨fun distinct => ?_, rfl, rfl, rfl, rfl⟩
  exact (List.nodup_cons.mp distinct).1 List.mem_cons_self

end Format

end MachineDescription
