import MachineDescription.InstructionSet.Lookup
import MachineDescription.Proofs.MemberNames
import MachineDescription.Proofs.Registration

namespace MachineDescription

namespace Name

theorem splitMember?_cons (c : Char) (rest : List Char) :
    splitMember? (c :: rest) =
      match splitMember? rest with
      | some (scope, member) => some (c :: scope, member)
      | none =>
        match c, rest with
        | ':', ':' :: member => some ([], member)
        | _, _ => none :=
  rfl

theorem splitMember?_eq_none {text : List Char} (plain : ':' ∉ text) :
    splitMember? text = none := by
  induction text with
  | nil => rfl
  | cons c rest ih =>
    rw [splitMember?_cons, ih fun later => plain (List.mem_cons_of_mem c later)]
    split
    · cases ‹_ = some _›
    · split
      · exact absurd List.mem_cons_self plain
      · rfl

/-- The last double colon is the one before a label without colons. -/
theorem splitMember?_append (scope : List Char) {label : List Char} (plain : ':' ∉ label) :
    splitMember? (scope ++ ':' :: ':' :: label) = some (scope, label) := by
  induction scope with
  | nil =>
    have single : splitMember? (':' :: label) = none := by
      rw [splitMember?_cons, splitMember?_eq_none plain]
      cases label with
      | nil => rfl
      | cons c rest =>
        have other : c ≠ ':' := fun same => plain (same ▸ List.mem_cons_self)
        simp [other]
    rw [List.nil_append, splitMember?_cons, single]
    rfl
  | cons c scope ih => rw [List.cons_append, splitMember?_cons, ih]

/-- The text of a member is that of its format, a double colon and the cleaned label. -/
theorem qualified_append {name : Name} (qualifies : name.parts ≠ []) (label : String) :
    (name.append label).qualified = name.qualified ++ "::" ++ cleanPart label := by
  simp only [qualified, append]
  rw [String.intercalate_append_of_ne_nil qualifies (List.cons_ne_nil _ _),
    String.intercalate_singleton]

theorem qualified_append_of_no_parts {name : Name} (bare : name.parts = []) (label : String) :
    (name.append label).qualified = cleanPart label := by
  simp only [qualified, append, bare, List.nil_append, String.intercalate_singleton]

end Name

namespace Format

/-- A format as it is to be declared. -/
structure Plan where
  name : Name
  width : Nat
  declarations : List Declaration

def Plan.format (p : Plan) : Format :=
  built p.name p.width p.declarations

/-- The member under a label, a field before a view. -/
def member? (f : Format) (label : String) : Option Element :=
  ((f.field? label).map .field).or ((f.access? label).map .access)

/-- Fields come before views, and no label belongs to both. -/
theorem member?_field {f : Format} {m : Labelled Field} (member : m ∈ f.fields) :
    f.member? m.label = some (.field m.item) := by
  rw [member?, field?, Labelled.find?_of_mem (List.nodup_append.mp f.distinct).1 member]
  rfl

theorem member?_access {f : Format} {m : Labelled FieldAccess} (member : m ∈ f.accesses) :
    f.member? m.label = some (.access m.item) := by
  obtain ⟨_, accesses, apart⟩ := List.nodup_append.mp f.distinct
  have noField : Labelled.find? f.fields m.label = none := by
    rw [Labelled.find?_eq_none]
    intro inside
    exact apart _ inside _ (List.mem_map_of_mem member) rfl
  rw [member?, field?, noField, access?, Labelled.find?_of_mem accesses member]
  rfl

end Format

namespace InstructionSet

variable {s : InstructionSet}

/-- Definitions are looked for first, so a name that a definition has leads to it. -/
theorem lookup_eq_definition {name : String} {d : Definition}
    (found : s.definition? name = some d) : s.lookup name = some (.definition d) := by
  rw [lookup, found]

/-- A name that no definition has is split into a format and the label of a member. -/
theorem lookup_append {f : Declared Format} (registered : s.format? f.item.name.qualified = some f)
    (qualifies : f.item.name.parts ≠ []) {label : String} (clean : Name.cleanPart label = label)
    (plain : ':' ∉ label.toList)
    (absent : s.definition? (f.item.name.append label).qualified = none) :
    s.lookup (f.item.name.append label).qualified = f.item.member? label := by
  have text : (f.item.name.append label).qualified.toList =
      f.item.name.qualified.toList ++ ':' :: ':' :: label.toList := by
    rw [Name.qualified_append qualifies, clean]
    simp
  rw [lookup, absent]
  change (Name.splitMember? _).bind _ = _
  rw [text, Name.splitMember?_append _ plain]
  change s.member? (.ofList f.item.name.qualified.toList) (.ofList label.toList) = _
  rw [String.ofList_toList, String.ofList_toList, member?, registered]
  rfl

/-- Without a format's name in front, there is nothing to split. -/
theorem lookup_bare {name : Name} (bare : name.parts = []) {label : String}
    (clean : Name.cleanPart label = label) (plain : ':' ∉ label.toList) :
    s.lookup (name.append label).qualified =
      (s.definition? (name.append label).qualified).map .definition := by
  rw [lookup]
  cases s.definition? (name.append label).qualified with
  | some d => rfl
  | none =>
    rw [Name.qualified_append_of_no_parts bare, clean, Name.splitMember?_eq_none plain]
    rfl

/-- What a label stands for in a registered format is found under the qualified name, unless a
definition has this name or the format has no name to qualify it with. -/
theorem lookup_append_eq_some_iff {f : Declared Format}
    (registered : s.format? f.item.name.qualified = some f) {label : String}
    (clean : Name.cleanPart label = label) (plain : ':' ∉ label.toList) {member : Element}
    (declared : f.item.member? label = some member)
    (part : ∀ d, member ≠ .definition d) :
    s.lookup (f.item.name.append label).qualified = some member ↔
      f.item.name.parts ≠ [] ∧
        ∀ d ∈ s.definitions, d.name.qualified ≠ (f.item.name.append label).qualified := by
  rw [← definition?_eq_none_iff]
  constructor
  · intro found
    refine ⟨fun bare => ?_, ?_⟩
    · rw [lookup_bare bare clean plain] at found
      obtain ⟨d, _, same⟩ := Option.map_eq_some_iff.mp found
      exact part d same.symm
    · cases shadow : s.definition? (f.item.name.append label).qualified with
      | none => rfl
      | some d =>
        rw [lookup_eq_definition shadow] at found
        exact absurd (Option.some.inj found).symm (part d)
  · rintro ⟨qualifies, absent⟩
    rw [lookup_append registered qualifies clean plain absent, declared]

/-- In every instruction set, a member whose label is clean and has no colon is found under its
qualified name exactly if no definition is registered under this name and the name of the format is
not empty. A definition is always found under its name. -/
theorem lookup_member_iff (plans : Nat → Format.Plan) (name : Name)
    (requests : List (Request fun serial => (plans serial).format)) {f : Declared Format}
    (registered : f ∈ (carriedOut name requests).formats) (clean : f.item.Clean)
    (plain : ∀ label ∈ f.item.labels, ':' ∉ label.toList) :
    (∀ m ∈ f.item.fields,
      (carriedOut name requests).lookup m.item.name.qualified = some (.field m.item) ↔
        f.item.name.parts ≠ [] ∧
          ∀ d ∈ (carriedOut name requests).definitions,
            d.name.qualified ≠ m.item.name.qualified) ∧
      (∀ m ∈ f.item.accesses,
        (carriedOut name requests).lookup m.item.name.qualified = some (.access m.item) ↔
          f.item.name.parts ≠ [] ∧
            ∀ d ∈ (carriedOut name requests).definitions,
              d.name.qualified ≠ m.item.name.qualified) ∧
      ∀ d ∈ (carriedOut name requests).definitions,
        (carriedOut name requests).lookup d.name.qualified = some (.definition d) := by
  have distinct := namesDistinct_carriedOut name requests
  have found := (distinct.findsByName.format _ f).mpr ⟨registered, rfl⟩
  have named : f.item.Named := by
    rw [(formatsOwned_carriedOut name requests).stored f registered]
    exact Format.named_built _ _ _
  refine ⟨fun m member => ?_, fun m member => ?_, fun d member => ?_⟩
  · have listed : m.label ∈ f.item.labels := List.mem_append_left _ (List.mem_map_of_mem member)
    rw [named.field m member]
    exact lookup_append_eq_some_iff found (clean _ listed) (plain _ listed)
      (Format.member?_field member) (fun d => nofun)
  · have listed : m.label ∈ f.item.labels := List.mem_append_right _ (List.mem_map_of_mem member)
    rw [named.access m member]
    exact lookup_append_eq_some_iff found (clean _ listed) (plain _ listed)
      (Format.member?_access member) (fun d => nofun)
  · exact lookup_eq_definition (distinct.definition?_eq_some_iff.mpr ⟨member, rfl⟩)

def nibblesPlan : Format.Plan :=
  ⟨.ofParts ["Nibbles"], 8, [.bits "op" 7 4, .bits "reg" 3 0]⟩

/-- A byte of two fields, and a signal with the name of the first one. -/
def shadowedField : List (Request fun _ => nibblesPlan.format) :=
  [.register (.format 0), .register (.resource (.signal ⟨.ofParts ["Nibbles", "op"], .bits 4⟩))]

theorem shadowedField_hypotheses :
    ⟨0, nibblesPlan.format⟩ ∈ (carriedOut (.ofParts ["Tiny"]) shadowedField).formats ∧
      nibblesPlan.format.Clean ∧ ∀ label ∈ nibblesPlan.format.labels, ':' ∉ label.toList := by
  refine ⟨List.mem_singleton_self _, ?_, by decide⟩
  unfold Format.Clean
  decide

/-- The other field of the format is still found, and both labels are clean. -/
theorem lookup_member_shadowedField :
    let s := carriedOut (.ofParts ["Tiny"]) shadowedField
    let f := nibblesPlan.format
    ⟨0, f⟩ ∈ s.formats ∧ f.Clean ∧ (∀ label ∈ f.labels, ':' ∉ label.toList) ∧
      (s.lookup "Nibbles::reg").map Element.kind = some "field" ∧
      ∀ m ∈ f.fields, s.lookup m.item.name.qualified = some (.field m.item) ↔
        f.name.parts ≠ [] ∧ ∀ d ∈ s.definitions, d.name.qualified ≠ m.item.name.qualified := by
  obtain ⟨registered, clean, plain⟩ := shadowedField_hypotheses
  exact ⟨registered, clean, plain, rfl,
    (lookup_member_iff (fun _ => nibblesPlan) _ shadowedField registered clean plain).1⟩

/-- The signal takes the name of the field, and the field is not found under its name any more. -/
theorem field_shadowed_by_signal :
    let s := carriedOut (.ofParts ["Tiny"]) shadowedField
    ∃ f ∈ s.formats, f.item.Clean ∧ (∀ label ∈ f.item.labels, ':' ∉ label.toList) ∧
      ∃ m ∈ f.item.fields, m.item.name.qualified = "Nibbles::op" ∧
        s.lookup m.item.name.qualified ≠ some (.field m.item) ∧
        (s.lookup m.item.name.qualified).map Element.kind = some "resource" := by
  obtain ⟨registered, clean, plain⟩ := shadowedField_hypotheses
  refine ⟨_, registered, clean, plain, _, List.mem_cons_self, rfl, fun found => ?_, rfl⟩
  have kinds : some "resource" = some "field" := congrArg (Option.map Element.kind) found
  exact absurd kinds (by decide)

end InstructionSet

end MachineDescription
