import MachineDescription.InstructionSet.Basic
import MachineDescription.Proofs.Construction
import Mathlib.Data.List.Nodup

namespace MachineDescription

namespace Instruction

def assign (i : Instruction) : Encoding.Assignment → Except Error Instruction
  | .value label v => i.bind label v
  | .integer label n => i.bindInteger label n

/-- Binding a field changes nothing but the encoding. -/
theorem exists_encoding_of_assign {i j : Instruction} {assignment : Encoding.Assignment}
    (bound : i.assign assignment = .ok j) :
    ∃ e, i.encoding.assign assignment = .ok e ∧ j = { i with encoding := e } := by
  cases assignment with
  | value label v =>
    obtain ⟨e, made, result⟩ := exists_ok_of_bind bound
    cases result
    exact ⟨e, made, rfl⟩
  | integer label n =>
    obtain ⟨e, made, result⟩ := exists_ok_of_bind bound
    cases result
    exact ⟨e, made, rfl⟩

theorem format_of_assign {i j : Instruction} {assignment : Encoding.Assignment}
    (bound : i.assign assignment = .ok j) : j.format = i.format := by
  obtain ⟨e, made, rfl⟩ := exists_encoding_of_assign bound
  exact Encoding.format_of_assign made

theorem format_of_assignments {assignments : List Encoding.Assignment} {i j : Instruction}
    (bound : assignments.foldlM assign i = .ok j) : j.format = i.format := by
  induction assignments generalizing i with
  | nil =>
    cases bound
    rfl
  | cons assignment rest ih =>
    obtain ⟨next, made, later⟩ := exists_ok_of_bind bound
    rw [ih later, format_of_assign made]

theorem name_of_assignments {assignments : List Encoding.Assignment} {i j : Instruction}
    (bound : assignments.foldlM assign i = .ok j) : j.name = i.name := by
  induction assignments generalizing i with
  | nil =>
    cases bound
    rfl
  | cons assignment rest ih =>
    obtain ⟨next, made, later⟩ := exists_ok_of_bind bound
    obtain ⟨e, _, rfl⟩ := exists_encoding_of_assign made
    rw [ih later]

end Instruction

namespace InstructionSet

/-- A definition to register. A format goes by the serial number of its declaration, and `declared`
is the format behind each serial number; an instruction comes with its encoding or is drafted on the
spot. -/
inductive Registration (declared : Nat → Format) where
  | format (serial : Nat)
  | resource (resource : Resource)
  | counter (counter : Counter)
  | convention (convention : Convention)
  | instruction (instruction : Instruction)
      (known : instruction.format.item = declared instruction.format.serial)
  | draft (name : Name) (format : String) (assignments : List Encoding.Assignment)

variable {declared : Nat → Format}

def perform (s : InstructionSet) : Registration declared → Except Error InstructionSet
  | .format serial => s.addFormat ⟨serial, declared serial⟩
  | .resource resource => s.addResource resource
  | .counter counter => s.addCounter counter
  | .convention convention => s.addConvention convention
  | .instruction instruction _ => s.addInstruction instruction
  | .draft name format assignments => do
    let draft ← s.draftInstruction name format
    let instruction ← assignments.foldlM Instruction.assign draft
    s.addInstruction instruction

/-- The instruction set of a sequence of registrations. -/
def built (name : Name) (registrations : List (Registration declared)) : InstructionSet :=
  attempts perform (empty name) registrations

/-- A registration is refused only for a name that is taken. -/
theorem register_eq_ok_iff {s t : InstructionSet} {d : Definition} :
    s.register d = .ok t ↔
      s.definition? d.name.qualified = none ∧ t = ⟨s.name, s.definitions ++ [d]⟩ := by
  cases taken : s.definition? d.name.qualified with
  | none =>
    have made : s.register d = .ok ⟨s.name, s.definitions ++ [d]⟩ := by
      simp only [register, checkFresh, taken, bind, pure, Except.bind, Except.pure]
      rfl
    rw [made]
    constructor
    · intro equal
      exact ⟨rfl, (Except.ok.inj equal).symm⟩
    · rintro ⟨_, rfl⟩
      rfl
  | some other => simp [register, checkFresh, taken, bind, Except.bind]

theorem filterMap_snoc {α : Type} (kind : Definition → Option α) (definitions : List Definition)
    (d : Definition) :
    (definitions ++ [d]).filterMap kind = definitions.filterMap kind ++ (kind d).toList := by
  simp only [List.filterMap_append, List.filterMap_cons, List.filterMap_nil]
  cases kind d <;> rfl

theorem formats_snoc (name : Name) (definitions : List Definition) (d : Definition) :
    formats ⟨name, definitions ++ [d]⟩ = formats ⟨name, definitions⟩ ++ d.format?.toList :=
  filterMap_snoc _ definitions d

theorem instructions_snoc (name : Name) (definitions : List Definition) (d : Definition) :
    instructions ⟨name, definitions ++ [d]⟩ =
      instructions ⟨name, definitions⟩ ++ d.instruction?.toList :=
  filterMap_snoc _ definitions d

/-- What may be registered: a declared format, or an instruction of a registered one. -/
def Admits (declared : Nat → Format) (s : InstructionSet) : Definition → Prop
  | .format f => f.item = declared f.serial
  | .instruction i =>
    s.ownsFormat i.format = true ∧ (i.format ∈ s.formats ∨ i.format.item = declared i.format.serial)
  | .resource _ | .counter _ | .convention _ => True

theorem addInstruction_eq_ok {s t : InstructionSet} {i : Instruction}
    (made : s.addInstruction i = .ok t) :
    s.ownsFormat i.format = true ∧ s.register (.instruction i) = .ok t := by
  unfold addInstruction at made
  split at made
  · rename_i owned
    exact ⟨owned, made⟩
  · cases made

theorem format_mem_of_draft {s : InstructionSet} {name : Name} {format : String} {i : Instruction}
    (made : s.draftInstruction name format = .ok i) : i.format ∈ s.formats := by
  obtain ⟨_, _, made⟩ := exists_ok_of_bind made
  split at made
  · cases made
  · rename_i f found
    cases made
    obtain ⟨d, known, isFormat⟩ := Option.bind_eq_some_iff.mp found
    exact List.mem_filterMap.mpr ⟨d, List.mem_of_find?_eq_some known, isFormat⟩

theorem register_of_taken {s : InstructionSet} {d e : Definition}
    (taken : s.definition? d.name.qualified = some e) :
    s.register d = .error (.about d.name (.instructionSet (.definedTwice d.name s.name))) := by
  simp [register, checkFresh, taken, bind, Except.bind]

/-- A drafted instruction can be registered, whatever has been bound in it. -/
theorem addInstruction_of_drafted {s : InstructionSet} {name : Name} {format : String}
    {assignments : List Encoding.Assignment} {draft i : Instruction}
    (drafted : s.draftInstruction name format = .ok draft)
    (bound : assignments.foldlM Instruction.assign draft = .ok i) :
    s.definition? i.name.qualified = none ∧
      s.addInstruction i = .ok ⟨s.name, s.definitions ++ [.instruction i]⟩ := by
  have known : i.format ∈ s.formats := by
    rw [Instruction.format_of_assignments bound]
    exact format_mem_of_draft drafted
  have owned : s.ownsFormat i.format = true :=
    List.any_eq_true.mpr ⟨i.format, known, beq_self_eq_true _⟩
  have fresh : s.definition? i.name.qualified = none := by
    obtain ⟨_, unused, made⟩ := exists_ok_of_bind drafted
    have same : draft.name = name := by
      split at made
      · cases made
      · cases made
        rfl
    rw [Instruction.name_of_assignments bound, same]
    unfold checkFresh at unused
    split at unused
    · cases unused
    · rename_i absent
      exact Option.not_isSome_iff_eq_none.mp absent
  refine ⟨fresh, ?_⟩
  unfold addInstruction
  rw [if_pos owned]
  exact register_eq_ok_iff.mpr ⟨fresh, rfl⟩

/-- A registration that succeeds adds one definition at the end. -/
theorem perform_eq_ok {s t : InstructionSet} {r : Registration declared}
    (made : s.perform r = .ok t) :
    ∃ d, s.Admits declared d ∧ s.register d = .ok t := by
  cases r with
  | format serial => exact ⟨.format ⟨serial, declared serial⟩, rfl, made⟩
  | resource resource => exact ⟨.resource resource, trivial, made⟩
  | counter counter => exact ⟨.counter counter, trivial, made⟩
  | convention convention => exact ⟨.convention convention, trivial, made⟩
  | instruction instruction known =>
    obtain ⟨owned, registered⟩ := addInstruction_eq_ok made
    exact ⟨.instruction instruction, ⟨owned, Or.inr known⟩, registered⟩
  | draft name format assignments =>
    obtain ⟨draft, drafted, made⟩ := exists_ok_of_bind made
    obtain ⟨instruction, bound, made⟩ := exists_ok_of_bind made
    obtain ⟨owned, registered⟩ := addInstruction_eq_ok made
    have same := Instruction.format_of_assignments bound
    refine ⟨.instruction instruction, ⟨owned, Or.inl ?_⟩, registered⟩
    rw [same]
    exact format_mem_of_draft drafted

/-- Registered formats are declared ones, and each instruction is of a registered format. -/
structure FormatsOwned (declared : Nat → Format) (s : InstructionSet) : Prop where
  stored : ∀ f ∈ s.formats, f.item = declared f.serial
  owned : ∀ i ∈ s.instructions, i.format ∈ s.formats

/-- Two registrations that name the same serial number mean the same format. -/
theorem Admits.format_mem {s : InstructionSet} {i : Instruction} (kept : FormatsOwned declared s)
    (admitted : s.Admits declared (.instruction i)) : i.format ∈ s.formats := by
  obtain ⟨owned, registered | known⟩ := admitted
  · exact registered
  · obtain ⟨f, member, same⟩ := List.any_eq_true.mp owned
    have serial : f.serial = i.format.serial := by simpa [Declared.isSame] using same
    have item : f.item = i.format.item := by rw [kept.stored f member, known, serial]
    have equal : i.format = f :=
      calc i.format = ⟨i.format.serial, i.format.item⟩ := rfl
        _ = ⟨f.serial, f.item⟩ := by rw [serial, item]
        _ = f := rfl
    rwa [equal]

theorem FormatsOwned.perform {s t : InstructionSet} {r : Registration declared}
    (kept : FormatsOwned declared s) (made : s.perform r = .ok t) : FormatsOwned declared t := by
  obtain ⟨d, admitted, registered⟩ := perform_eq_ok made
  obtain ⟨_, rfl⟩ := register_eq_ok_iff.mp registered
  constructor
  · intro f member
    rw [formats_snoc] at member
    rcases List.mem_append.mp member with old | new
    · exact kept.stored f old
    · cases d with
      | format g =>
        cases List.mem_singleton.mp new
        exact admitted
      | resource | counter | instruction | convention => cases new
  · intro i member
    rw [instructions_snoc] at member
    rw [formats_snoc]
    rcases List.mem_append.mp member with old | new
    · exact List.mem_append_left _ (kept.owned i old)
    · cases d with
      | instruction j =>
        cases List.mem_singleton.mp new
        exact List.mem_append_left _ (admitted.format_mem kept)
      | format | resource | counter | convention => cases new

/-- After every sequence of registrations, the format of an instruction is among the registered
ones. -/
theorem formatsOwned_built (name : Name) (registrations : List (Registration declared)) :
    FormatsOwned declared (built name registrations) := by
  refine attempts_induction (fun _ _ _ kept made => kept.perform made) ?_ registrations
  exact ⟨fun _ member => (nomatch member), fun _ member => (nomatch member)⟩

/-- A registration, or an instruction that is drafted and then given up. -/
inductive Request (declared : Nat → Format) where
  | register (registration : Registration declared)
  | abandon (name : Name) (format : String) (assignments : List Encoding.Assignment)

def Request.isAbandoned : Request declared → Bool
  | .register _ => false
  | .abandon .. => true

def carryOut (s : InstructionSet) : Request declared → Except Error InstructionSet
  | .register registration => s.perform registration
  | .abandon name format assignments => do
    let draft ← s.draftInstruction name format
    let _ ← assignments.foldlM Instruction.assign draft
    return s

/-- The instruction set of a sequence of requests. -/
def carriedOut (name : Name) (requests : List (Request declared)) : InstructionSet :=
  attempts carryOut (empty name) requests

/-- A request that succeeds registers a definition, or leaves everything as it was. -/
theorem carryOut_eq_ok {s t : InstructionSet} {request : Request declared}
    (made : s.carryOut request = .ok t) :
    t = s ∨ ∃ registration : Registration declared, s.perform registration = .ok t := by
  cases request with
  | register registration => exact Or.inr ⟨registration, made⟩
  | abandon name format assignments =>
    obtain ⟨draft, _, made⟩ := exists_ok_of_bind made
    obtain ⟨instruction, _, made⟩ := exists_ok_of_bind made
    cases made
    exact Or.inl rfl

/-- What every successful registration keeps, every sequence of requests keeps. -/
theorem carriedOut_induction {Kept : InstructionSet → Prop} {name : Name}
    (kept : ∀ before (registration : Registration declared) after, Kept before →
      before.perform registration = .ok after → Kept after)
    (initial : Kept (empty name)) (requests : List (Request declared)) :
    Kept (carriedOut name requests) := by
  refine attempts_induction (fun before request after holds made => ?_) initial requests
  rcases carryOut_eq_ok made with rfl | ⟨registration, performed⟩
  · exact holds
  · exact kept before registration after holds performed

theorem formatsOwned_carriedOut (name : Name) (requests : List (Request declared)) :
    FormatsOwned declared (carriedOut name requests) := by
  refine carriedOut_induction (fun _ _ _ kept made => kept.perform made) ?_ requests
  exact ⟨fun _ member => (nomatch member), fun _ member => (nomatch member)⟩

/-- No two definitions have the same qualified name. -/
def NamesDistinct (s : InstructionSet) : Prop :=
  (s.definitions.map (·.name.qualified)).Nodup

theorem definition?_eq_none_iff {s : InstructionSet} {name : String} :
    s.definition? name = none ↔ ∀ d ∈ s.definitions, d.name.qualified ≠ name := by
  simp [definition?]

theorem NamesDistinct.register {s t : InstructionSet} {d : Definition}
    (distinct : s.NamesDistinct) (registered : s.register d = .ok t) : t.NamesDistinct := by
  obtain ⟨fresh, rfl⟩ := register_eq_ok_iff.mp registered
  have unused : d.name.qualified ∉ s.definitions.map (·.name.qualified) := by
    intro taken
    obtain ⟨other, member, same⟩ := List.mem_map.mp taken
    exact definition?_eq_none_iff.mp fresh other member same
  unfold NamesDistinct
  rw [List.map_append]
  exact List.perm_append_comm.nodup_iff.mpr (List.nodup_cons.mpr ⟨unused, distinct⟩)

/-- After every sequence of requests no name is taken twice. -/
theorem namesDistinct_carriedOut (name : Name) (requests : List (Request declared)) :
    (carriedOut name requests).NamesDistinct := by
  refine carriedOut_induction (fun _ _ _ distinct made => ?_) List.nodup_nil requests
  obtain ⟨d, _, registered⟩ := perform_eq_ok made
  exact distinct.register registered

/-- With different names, the first definition of a name is the only one. -/
theorem NamesDistinct.definition?_eq_some_iff {s : InstructionSet} (distinct : s.NamesDistinct)
    {name : String} {d : Definition} :
    s.definition? name = some d ↔ d ∈ s.definitions ∧ d.name.qualified = name := by
  rw [definition?, find?_eq_some_iff_of_unique, beq_iff_eq]
  intro other inside member named namedToo
  have same : other.name.qualified = d.name.qualified :=
    (beq_iff_eq.mp namedToo).trans (beq_iff_eq.mp named).symm
  exact List.inj_on_of_nodup_map distinct inside member same

/-- Of each kind, the definitions that are found under a name are those registered with it. -/
structure FindsByName (s : InstructionSet) : Prop where
  format : ∀ name f, s.format? name = some f ↔ f ∈ s.formats ∧ f.item.name.qualified = name
  resource : ∀ name r, s.resource? name = some r ↔ r ∈ s.resources ∧ r.name.qualified = name
  counter : ∀ name c, s.counter? name = some c ↔ c ∈ s.counters ∧ c.name.qualified = name
  instruction : ∀ name i,
    s.instruction? name = some i ↔ i ∈ s.instructions ∧ i.name.qualified = name
  convention : ∀ name c,
    s.convention? name = some c ↔ c ∈ s.conventions ∧ c.name.qualified = name

/-- A kind picks some of the definitions, each with the name of what is picked. -/
theorem NamesDistinct.bind_eq_some_iff {α : Type} {s : InstructionSet}
    (distinct : s.NamesDistinct) (kind : Definition → Option α) (nameOf : α → Name)
    (named : ∀ d a, kind d = some a → d.name = nameOf a) (name : String) (a : α) :
    (s.definition? name).bind kind = some a ↔
      a ∈ s.definitions.filterMap kind ∧ (nameOf a).qualified = name := by
  rw [Option.bind_eq_some_iff, List.mem_filterMap]
  constructor
  · rintro ⟨d, found, picked⟩
    obtain ⟨member, same⟩ := distinct.definition?_eq_some_iff.mp found
    exact ⟨⟨d, member, picked⟩, by rw [← named d a picked, same]⟩
  · rintro ⟨⟨d, member, picked⟩, same⟩
    refine ⟨d, distinct.definition?_eq_some_iff.mpr ⟨member, ?_⟩, picked⟩
    rw [named d a picked, same]

theorem NamesDistinct.findsByName {s : InstructionSet} (distinct : s.NamesDistinct) :
    s.FindsByName where
  format := distinct.bind_eq_some_iff Definition.format? (·.item.name) fun d _ picked => by
    cases d <;> cases picked; rfl
  resource := distinct.bind_eq_some_iff Definition.resource? Resource.name fun d _ picked => by
    cases d <;> cases picked; rfl
  counter := distinct.bind_eq_some_iff Definition.counter? Counter.name fun d _ picked => by
    cases d <;> cases picked; rfl
  instruction :=
    distinct.bind_eq_some_iff Definition.instruction? Instruction.name fun d _ picked => by
      cases d <;> cases picked; rfl
  convention :=
    distinct.bind_eq_some_iff Definition.convention? Convention.name fun d _ picked => by
      cases d <;> cases picked; rfl

end InstructionSet

/-- A byte of two fields. -/
def Format.nibbles : Format :=
  built (.ofParts ["Nibbles"]) 8 [.bits "op" 7 4, .bits "reg" 3 0]

def Instruction.increment : Instruction :=
  ⟨.ofParts ["INC"], .built (.ofParts ["INC", "encoding"]) ⟨0, .nibbles⟩ [.integer "op" 1]⟩

/-- An instruction for every register, and one that refines it for register 0. -/
def InstructionSet.incrementOrRest : List (Registration fun _ => Format.nibbles) :=
  [.format 0, .instruction .increment rfl,
    .draft (.ofParts ["NOP"]) "Nibbles" [.integer "op" 1, .integer "reg" 0]]

end MachineDescription
