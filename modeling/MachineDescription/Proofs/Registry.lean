import MachineDescription.Proofs.Evaluation
import MachineDescription.Proofs.Registration
import Mathlib.Data.List.AList

namespace MachineDescription

/-- The table of a kind and a place in it. -/
inductive Slot where
  | format (place : Nat)
  | resource (place : Nat)
  | counter (place : Nat)
  | instruction (place : Nat)
  | convention (place : Nat)
  deriving DecidableEq

/-- The definitions of an instruction set in tables, one for each kind. The order lists the slots of
all tables as they were filled, and the index gives the slot of each name. A request writes the
tables one after another, and nothing takes back what it has written before it fails. -/
structure Registry where
  name : Name
  formats : List (Declared Format)
  resources : List Resource
  counters : List Counter
  instructions : List Instruction
  conventions : List Convention
  order : List Slot
  index : AList fun _ : String => Slot

namespace Registry

open InstructionSet (Request)

variable {declared : Nat → Format}

def empty (name : Name) : Registry :=
  ⟨name, [], [], [], [], [], [], ∅⟩

/-- The definition in a slot, unless the slot is beyond the end of its table. -/
def at? (r : Registry) : Slot → Option Definition
  | .format place => r.formats[place]?.map .format
  | .resource place => r.resources[place]?.map .resource
  | .counter place => r.counters[place]?.map .counter
  | .instruction place => r.instructions[place]?.map .instruction
  | .convention place => r.conventions[place]?.map .convention

def definition? (r : Registry) (name : String) : Option Definition :=
  (r.index.lookup name).bind r.at?

/-- The slot at the end of the table for a definition. -/
def nextSlot (r : Registry) : Definition → Slot
  | .format _ => .format r.formats.length
  | .resource _ => .resource r.resources.length
  | .counter _ => .counter r.counters.length
  | .instruction _ => .instruction r.instructions.length
  | .convention _ => .convention r.conventions.length

def push (r : Registry) : Definition → Registry
  | .format format => { r with formats := r.formats ++ [format] }
  | .resource resource => { r with resources := r.resources ++ [resource] }
  | .counter counter => { r with counters := r.counters ++ [counter] }
  | .instruction instruction => { r with instructions := r.instructions ++ [instruction] }
  | .convention convention => { r with conventions := r.conventions ++ [convention] }

def checkFresh (name : Name) : Run Registry Unit := do
  let r ← get
  if (r.index.lookup name.qualified).isSome then
    throw (.about name (.instructionSet (.definedTwice name r.name)))

def register (name : Name) (slot : Slot) : Run Registry Unit := do
  checkFresh name
  modify fun r => { r with index := r.index.insert name.qualified slot }
  modify fun r => { r with order := r.order ++ [slot] }

/-- The slot is chosen before anything is written. -/
def add (d : Definition) : Run Registry Unit := do
  let r ← get
  register d.name (r.nextSlot d)
  modify (·.push d)

def addInstruction (i : Instruction) : Run Registry Unit := do
  let r ← get
  if r.formats.any (·.isSame i.format) then add (.instruction i)
  else throw (.about i.name (.instructionSet (.foreignFormat i.format.item.name r.name)))

def draftInstruction (name : Name) (format : String) : Run Registry Instruction := do
  checkFresh name
  let r ← get
  match (r.definition? format).bind (·.format?) with
  | none => throw (.about name (.instructionSet (.unknownFormat format)))
  | some f => return ⟨name, .empty (name.append "encoding") f⟩

/-- Enter an instruction that has been drafted. Neither its name nor its format is checked. -/
def finish (i : Instruction) : Run Registry Unit := do
  let r ← get
  let slot := Slot.instruction r.instructions.length
  modify fun r => { r with index := r.index.insert i.name.qualified slot }
  modify fun r => { r with order := r.order ++ [slot] }
  modify fun r => { r with instructions := r.instructions ++ [i] }

def bindAll (assignments : List Encoding.Assignment) (i : Instruction) : Run Registry Instruction :=
  liftM (assignments.foldlM Instruction.assign i)

def carryOut : Request declared → Run Registry Unit
  | .register (.format serial) => add (.format ⟨serial, declared serial⟩)
  | .register (.resource resource) => add (.resource resource)
  | .register (.counter counter) => add (.counter counter)
  | .register (.convention convention) => add (.convention convention)
  | .register (.instruction instruction _) => addInstruction instruction
  | .register (.draft name format assignments) => do
    let draft ← draftInstruction name format
    let instruction ← bindAll assignments draft
    finish instruction
  | .abandon name format assignments => do
    let draft ← draftInstruction name format
    let _ ← bindAll assignments draft

/-- What a request yields. -/
def answer (r : Registry) (request : Request declared) : Except Error Unit :=
  ((carryOut request).run r).1

/-- What a request leaves behind, also if it fails. -/
def after (r : Registry) (request : Request declared) : Registry :=
  ((carryOut request).run r).2

/-- The registry of a sequence of requests. -/
def carriedOut (name : Name) (requests : List (Request declared)) : Registry :=
  requests.foldl after (empty name)

/-- A definition in all tables at once. -/
def extended (r : Registry) (d : Definition) : Registry :=
  { r.push d with
    order := r.order ++ [r.nextSlot d]
    index := r.index.insert d.name.qualified (r.nextSlot d) }

theorem run_checkFresh (r : Registry) (name : Name) :
    (checkFresh name).run r =
      if (r.index.lookup name.qualified).isSome then
        (.error (.about name (.instructionSet (.definedTwice name r.name))), r)
      else (.ok (), r) := by
  change (if (r.index.lookup name.qualified).isSome then _ else _ : Run Registry Unit).run r = _
  split <;> rfl

theorem run_register (r : Registry) (name : Name) (slot : Slot) :
    (register name slot).run r =
      if (r.index.lookup name.qualified).isSome then
        (.error (.about name (.instructionSet (.definedTwice name r.name))), r)
      else
        (.ok (), { r with
          order := r.order ++ [slot]
          index := r.index.insert name.qualified slot }) := by
  unfold register
  rw [Run.run_bind, run_checkFresh]
  by_cases taken : (r.index.lookup name.qualified).isSome
  · rw [if_pos taken, if_pos taken]
  · rw [if_neg taken, if_neg taken]
    rfl

/-- A definition is written to one table after another, but only after the check of its name. -/
theorem run_add (r : Registry) (d : Definition) :
    (add d).run r =
      if (r.index.lookup d.name.qualified).isSome then
        (.error (.about d.name (.instructionSet (.definedTwice d.name r.name))), r)
      else (.ok (), r.extended d) := by
  change (register d.name (r.nextSlot d) >>= fun _ => modify (·.push d)).run r = _
  rw [Run.run_bind, run_register]
  by_cases taken : (r.index.lookup d.name.qualified).isSome
  · rw [if_pos taken, if_pos taken]
  · rw [if_neg taken, if_neg taken]
    cases d <;> rfl

theorem run_finish (r : Registry) (i : Instruction) :
    (finish i).run r = (.ok (), r.extended (.instruction i)) :=
  rfl

theorem run_bindAll (r : Registry) (assignments : List Encoding.Assignment) (i : Instruction) :
    (bindAll assignments i).run r = (assignments.foldlM Instruction.assign i, r) :=
  rfl

theorem run_addInstruction (r : Registry) (i : Instruction) :
    (addInstruction i).run r =
      if r.formats.any (·.isSame i.format) then (add (.instruction i)).run r
      else
        (.error (.about i.name (.instructionSet
          (.foreignFormat i.format.item.name r.name))), r) := by
  change (if r.formats.any (·.isSame i.format) then _ else _ : Run Registry Unit).run r = _
  split <;> rfl

/-- A new definition fills the slot at the end of its table and moves no other. -/
theorem at?_extended (r : Registry) (d : Definition) (slot : Slot) :
    (r.extended d).at? slot = if slot = r.nextSlot d then some d else r.at? slot := by
  cases d <;> cases slot <;>
    simp [extended, push, at?, nextSlot, getElem?_snoc, apply_ite (Option.map _)]

theorem at?_nextSlot (r : Registry) (d : Definition) : r.at? (r.nextSlot d) = none := by
  cases d <;> simp [at?, nextSlot]

/-- A new definition comes at the end of the table of its kind. -/
theorem table_extended (r : Registry) (d : Definition) :
    (r.extended d).name = r.name ∧
      (r.extended d).formats = r.formats ++ d.format?.toList ∧
      (r.extended d).resources = r.resources ++ d.resource?.toList ∧
      (r.extended d).counters = r.counters ++ d.counter?.toList ∧
      (r.extended d).instructions = r.instructions ++ d.instruction?.toList ∧
      (r.extended d).conventions = r.conventions ++ d.convention?.toList := by
  cases d <;>
    simp [extended, push, Definition.format?, Definition.resource?, Definition.counter?,
      Definition.instruction?, Definition.convention?]

/-- Index, order and tables are in step with each other. -/
structure Consistent (r : Registry) : Prop where
  /-- The index has one entry for each slot in the order. -/
  entries : (r.index.entries.map Sigma.snd).Perm r.order
  /-- The slot of a name is in range, and holds a definition of this name. -/
  keyed : ∀ key slot, r.index.lookup key = some slot →
    ∃ d, r.at? slot = some d ∧ d.name.qualified = key
  /-- No slot stands twice in the order. -/
  once : r.order.Nodup
  /-- The slots in the order are those that hold a definition. -/
  stored : ∀ slot, slot ∈ r.order ↔ (r.at? slot).isSome = true

namespace Consistent

variable {r : Registry}

theorem empty (name : Name) : (empty name).Consistent where
  entries := List.Perm.nil
  keyed _ _ found := by cases found
  once := List.nodup_nil
  stored slot := by cases slot <;> simp [Registry.empty, at?]

theorem mem_order (consistent : r.Consistent) {key : String} {slot : Slot}
    (indexed : r.index.lookup key = some slot) : slot ∈ r.order :=
  consistent.entries.mem_iff.mp
    (List.mem_map.mpr ⟨⟨key, slot⟩, AList.mem_lookup_iff.mp indexed, rfl⟩)

/-- What a slot holds is indexed under its name. -/
theorem lookup_eq_some (consistent : r.Consistent) {slot : Slot} {d : Definition}
    (held : r.at? slot = some d) : r.index.lookup d.name.qualified = some slot := by
  have listed : slot ∈ r.order := (consistent.stored slot).mpr (by rw [held]; rfl)
  obtain ⟨⟨key, _⟩, entry, rfl⟩ := List.mem_map.mp (consistent.entries.mem_iff.mpr listed)
  have indexed := AList.mem_lookup_iff.mpr entry
  obtain ⟨e, held', named⟩ := consistent.keyed key _ indexed
  cases Option.some.inj (held'.symm.trans held)
  rw [named]
  exact indexed

/-- A definition is found by its name exactly if a slot of the order holds it. -/
theorem definition?_eq_some_iff (consistent : r.Consistent) {name : String} {d : Definition} :
    r.definition? name = some d ↔ (∃ slot ∈ r.order, r.at? slot = some d) ∧
      d.name.qualified = name := by
  rw [definition?, Option.bind_eq_some_iff]
  constructor
  · rintro ⟨slot, indexed, held⟩
    obtain ⟨e, held', named⟩ := consistent.keyed name slot indexed
    cases Option.some.inj (held'.symm.trans held)
    exact ⟨⟨slot, consistent.mem_order indexed, held⟩, named⟩
  · rintro ⟨⟨slot, _, held⟩, rfl⟩
    exact ⟨slot, consistent.lookup_eq_some held, held⟩

theorem isSome_definition? (consistent : r.Consistent) (name : String) :
    (r.definition? name).isSome = (r.index.lookup name).isSome := by
  rw [definition?]
  cases indexed : r.index.lookup name with
  | none => rfl
  | some slot =>
    obtain ⟨d, held, _⟩ := consistent.keyed name slot indexed
    simp [held]

theorem nextSlot_not_mem (consistent : r.Consistent) (d : Definition) :
    r.nextSlot d ∉ r.order := by
  rw [consistent.stored, at?_nextSlot]
  exact Bool.false_ne_true

theorem at?_extended_of_mem (consistent : r.Consistent) (d : Definition) {slot : Slot}
    (listed : slot ∈ r.order) : (r.extended d).at? slot = r.at? slot := by
  have other : slot ≠ r.nextSlot d := fun same => consistent.nextSlot_not_mem d (same ▸ listed)
  rw [at?_extended, if_neg other]

/-- The tables stay in step when a definition with a new name is entered in all of them. -/
theorem extended (consistent : r.Consistent) {d : Definition}
    (fresh : d.name.qualified ∉ r.index) : (r.extended d).Consistent where
  entries := by
    change ((r.index.insert d.name.qualified (r.nextSlot d)).entries.map Sigma.snd).Perm
      (r.order ++ [r.nextSlot d])
    rw [AList.entries_insert_of_notMem fresh, List.map_cons]
    exact (consistent.entries.cons _).trans (List.perm_append_singleton _ _).symm
  keyed key slot indexed := by
    change (r.index.insert d.name.qualified (r.nextSlot d)).lookup key = some slot at indexed
    by_cases same : key = d.name.qualified
    · subst same
      rw [AList.lookup_insert] at indexed
      cases indexed
      exact ⟨d, by rw [at?_extended, if_pos rfl], rfl⟩
    · rw [AList.lookup_insert_ne same] at indexed
      obtain ⟨e, held, named⟩ := consistent.keyed key slot indexed
      have listed : slot ∈ r.order := consistent.mem_order indexed
      exact ⟨e, by rw [consistent.at?_extended_of_mem d listed, held], named⟩
  once := (List.perm_append_singleton _ _).nodup_iff.mpr
    (List.nodup_cons.mpr ⟨consistent.nextSlot_not_mem d, consistent.once⟩)
  stored slot := by
    change slot ∈ r.order ++ [r.nextSlot d] ↔ _
    rw [List.mem_append, List.mem_singleton, consistent.stored, at?_extended]
    by_cases last : slot = r.nextSlot d
    · simp [last]
    · simp [last]

end Consistent

/-- The tables show the definitions of an instruction set, in the order of registration. -/
structure Shows (r : Registry) (s : InstructionSet) : Prop where
  name : r.name = s.name
  order : r.order.map r.at? = s.definitions.map some
  formats : r.formats = s.formats
  resources : r.resources = s.resources
  counters : r.counters = s.counters
  instructions : r.instructions = s.instructions
  conventions : r.conventions = s.conventions

namespace Shows

variable {r : Registry} {s : InstructionSet}

theorem empty (name : Name) : (Registry.empty name).Shows (.empty name) :=
  ⟨rfl, rfl, rfl, rfl, rfl, rfl, rfl⟩

theorem mem_definitions_iff (shows : r.Shows s) {d : Definition} :
    d ∈ s.definitions ↔ ∃ slot ∈ r.order, r.at? slot = some d := by
  have same : some d ∈ r.order.map r.at? ↔ some d ∈ s.definitions.map some := by
    rw [shows.order]
  simpa using same.symm

theorem extended (shows : r.Shows s) (consistent : r.Consistent) (d : Definition) :
    (r.extended d).Shows ⟨s.name, s.definitions ++ [d]⟩ := by
  have added {α : Type} (kind : Definition → Option α) :=
    (InstructionSet.filterMap_snoc kind s.definitions d).symm
  obtain ⟨name, formats, resources, counters, instructions, conventions⟩ := r.table_extended d
  constructor
  case name => rw [name, shows.name]
  case order =>
    change (r.order ++ [r.nextSlot d]).map (r.extended d).at? = (s.definitions ++ [d]).map some
    rw [List.map_append, List.map_append,
      List.map_congr_left fun _ => consistent.at?_extended_of_mem d, shows.order,
      List.map_singleton, at?_extended, if_pos rfl, List.map_singleton]
  case formats => exact (formats.trans (by rw [shows.formats]; rfl)).trans (added _)
  case resources => exact (resources.trans (by rw [shows.resources]; rfl)).trans (added _)
  case counters => exact (counters.trans (by rw [shows.counters]; rfl)).trans (added _)
  case instructions => exact (instructions.trans (by rw [shows.instructions]; rfl)).trans (added _)
  case conventions => exact (conventions.trans (by rw [shows.conventions]; rfl)).trans (added _)

/-- As names are taken once, the index finds what a search through the definitions does. -/
theorem definition?_eq (shows : r.Shows s) (consistent : r.Consistent)
    (distinct : s.NamesDistinct) (name : String) : r.definition? name = s.definition? name := by
  apply Option.ext
  intro d
  rw [distinct.definition?_eq_some_iff, consistent.definition?_eq_some_iff,
    shows.mem_definitions_iff]

end Shows

/-- The tables are in step with each other and with an instruction set. -/
structure InStep (r : Registry) (s : InstructionSet) : Prop where
  consistent : r.Consistent
  shows : r.Shows s
  distinct : s.NamesDistinct

/-- What a request can do: it is refused by both and leaves the registry as it was, it is given up
and changes neither, or it adds one definition to both. -/
inductive Answers (r : Registry) (s : InstructionSet) (givenUp : Bool) :
    Except Error InstructionSet → Except Error Unit × Registry → Prop where
  | refused (e : Error) : Answers r s givenUp (.error e) (.error e, r)
  | unchanged (abandoned : givenUp = true) : Answers r s givenUp (.ok s) (.ok (), r)
  | added (registered : givenUp = false) (d : Definition)
      (fresh : s.definition? d.name.qualified = none) :
      Answers r s givenUp (.ok ⟨s.name, s.definitions ++ [d]⟩) (.ok (), r.extended d)

namespace InStep

variable {r : Registry} {s : InstructionSet}

theorem definition?_eq (inStep : r.InStep s) (name : String) :
    r.definition? name = s.definition? name :=
  inStep.shows.definition?_eq inStep.consistent inStep.distinct name

theorem isSome_lookup (inStep : r.InStep s) (name : String) :
    (r.index.lookup name).isSome = (s.definition? name).isSome := by
  rw [← inStep.consistent.isSome_definition?, inStep.definition?_eq]

theorem extended (inStep : r.InStep s) {d : Definition}
    (fresh : s.definition? d.name.qualified = none) :
    (r.extended d).InStep ⟨s.name, s.definitions ++ [d]⟩ := by
  have unused : d.name.qualified ∉ r.index := by
    rw [← AList.lookup_isSome, inStep.isSome_lookup, fresh]
    exact Bool.false_ne_true
  exact ⟨inStep.consistent.extended unused, inStep.shows.extended inStep.consistent d,
    inStep.distinct.register (InstructionSet.register_eq_ok_iff.mpr ⟨fresh, rfl⟩)⟩

end InStep

namespace Answers

variable {r : Registry} {s : InstructionSet} {givenUp : Bool}
  {result : Except Error InstructionSet} {outcome : Except Error Unit × Registry}

theorem follows (answers : Answers r s givenUp result outcome) (before : r.InStep s) :
    Follows InStep r result outcome := by
  cases answers with
  | refused e => exact .refused e
  | unchanged abandoned => exact .made before
  | added registered d fresh => exact .made (before.extended fresh)

theorem snd_of_abandoned (answers : Answers r s givenUp result outcome)
    (abandoned : givenUp = true) : outcome.2 = r := by
  cases answers with
  | refused e => rfl
  | unchanged _ => rfl
  | added registered d fresh => cases abandoned.symm.trans registered

theorem exists_snd_eq (answers : Answers r s givenUp result outcome) (made : outcome.1 = .ok ())
    (registered : givenUp = false) : ∃ d, outcome.2 = r.extended d := by
  cases answers with
  | refused e => cases made
  | unchanged abandoned => cases abandoned.symm.trans registered
  | added _ d fresh => exact ⟨d, rfl⟩

end Answers

namespace InStep

variable {r : Registry} {s : InstructionSet}

theorem run_checkFresh (inStep : r.InStep s) (name : Name) :
    (checkFresh name).run r = (s.checkFresh name, r) := by
  rw [Registry.run_checkFresh, inStep.isSome_lookup, inStep.shows.name]
  unfold InstructionSet.checkFresh
  split <;> rfl

/-- Drafting looks at the registry and writes nothing. -/
theorem run_draftInstruction (inStep : r.InStep s) (name : Name) (format : String) :
    (draftInstruction name format).run r = (s.draftInstruction name format, r) := by
  unfold draftInstruction InstructionSet.draftInstruction
  rw [Run.run_bind, inStep.run_checkFresh]
  cases s.checkFresh name with
  | error e => rfl
  | ok _ =>
    change (match (r.definition? format).bind (·.format?) with
      | none => _
      | some f => _ : Run Registry Instruction).run r = _
    rw [inStep.definition?_eq]
    change (match s.format? format with
      | none => _
      | some f => _ : Run Registry Instruction).run r = _
    cases s.format? format <;> rfl

theorem answers_add (inStep : r.InStep s) (d : Definition) :
    Answers r s false (s.register d) ((add d).run r) := by
  rw [run_add, inStep.isSome_lookup, inStep.shows.name]
  cases taken : s.definition? d.name.qualified with
  | none =>
    rw [InstructionSet.register_eq_ok_iff.mpr ⟨taken, rfl⟩]
    exact .added rfl d taken
  | some e =>
    rw [InstructionSet.register_of_taken taken]
    exact .refused _

theorem answers_addInstruction (inStep : r.InStep s) (i : Instruction) :
    Answers r s false (s.addInstruction i) ((addInstruction i).run r) := by
  rw [run_addInstruction, inStep.shows.formats, inStep.shows.name]
  unfold InstructionSet.addInstruction InstructionSet.ownsFormat
  split
  · exact inStep.answers_add (.instruction i)
  · exact .refused _

/-- Drafting and binding write nothing, so only what is done with the instruction counts. -/
theorem answers_drafted (inStep : r.InStep s) {givenUp : Bool} {name : Name} {format : String}
    {assignments : List Encoding.Assignment} {next : Instruction → Except Error InstructionSet}
    {enter : Instruction → Run Registry Unit}
    (entered : ∀ draft i, s.draftInstruction name format = .ok draft →
      assignments.foldlM Instruction.assign draft = .ok i →
        Answers r s givenUp (next i) ((enter i).run r)) :
    Answers r s givenUp
      (s.draftInstruction name format >>= fun draft =>
        assignments.foldlM Instruction.assign draft >>= next)
      ((draftInstruction name format >>= fun draft =>
        bindAll assignments draft >>= enter).run r) := by
  rw [Run.run_bind, inStep.run_draftInstruction]
  cases drafted : s.draftInstruction name format with
  | error e => exact .refused e
  | ok draft =>
    change Answers r s givenUp (assignments.foldlM Instruction.assign draft >>= next)
      ((bindAll assignments draft >>= enter).run r)
    rw [Run.run_bind, run_bindAll]
    cases bound : assignments.foldlM Instruction.assign draft with
    | error e => exact .refused e
    | ok i => exact entered draft i drafted bound

theorem answers (inStep : r.InStep s) (request : Request declared) :
    Answers r s request.isAbandoned (s.carryOut request) ((carryOut request).run r) := by
  cases request with
  | register registration =>
    cases registration with
    | format serial => exact inStep.answers_add _
    | resource resource => exact inStep.answers_add _
    | counter counter => exact inStep.answers_add _
    | convention convention => exact inStep.answers_add _
    | instruction instruction _ => exact inStep.answers_addInstruction instruction
    | draft name format assignments =>
      refine inStep.answers_drafted fun draft i drafted bound => ?_
      -- Nothing is checked here: name and format are as they were when the draft was begun.
      obtain ⟨fresh, made⟩ := InstructionSet.addInstruction_of_drafted drafted bound
      rw [run_finish, made]
      exact .added rfl (.instruction i) fresh
  | abandon name format assignments =>
    exact inStep.answers_drafted fun _ _ _ _ => .unchanged rfl

theorem follows (inStep : r.InStep s) (request : Request declared) :
    Follows InStep r (s.carryOut request) ((carryOut request).run r) :=
  (inStep.answers request).follows inStep

end InStep

/-- Every sequence of requests keeps the tables in step with each other and with the instruction set
of the same requests. -/
theorem inStep_carriedOut (name : Name) (requests : List (Request declared)) :
    (carriedOut name requests).InStep (.carriedOut name requests) := by
  refine Follows.foldl (fun _ _ inStep => inStep.follows) ⟨.empty name, .empty name, ?_⟩ requests
  exact List.nodup_nil

/-- Over every sequence of requests the tables stay in step, requests that fail or are given up
change nothing, and definitions are found by name exactly if they are registered. -/
theorem tables_in_step (name : Name) (requests : List (Request declared)) :
    let r := carriedOut name requests
    let s := InstructionSet.carriedOut name requests
    r.Consistent ∧ r.Shows s ∧ (∀ i ∈ r.instructions, i.format ∈ r.formats) ∧
      (∀ request : Request declared, r.answer request = (s.carryOut request).map fun _ => ()) ∧
      (∀ (request : Request declared) e, r.answer request = .error e → r.after request = r) ∧
      (∀ request : Request declared, request.isAbandoned = true → r.after request = r) ∧
      (∀ request : Request declared, r.answer request = .ok () → request.isAbandoned = false →
        ∃ d, r.after request = r.extended d) ∧
      (∀ n, r.definition? n = s.definition? n) ∧ s.FindsByName := by
  intro r s
  have inStep : r.InStep s := inStep_carriedOut name requests
  refine ⟨inStep.consistent, inStep.shows, ?_, fun request => (inStep.follows request).fst_eq,
    fun request _ => (inStep.follows request).snd_of_error,
    fun request => (inStep.answers request).snd_of_abandoned,
    fun request => (inStep.answers request).exists_snd_eq, inStep.definition?_eq,
    inStep.distinct.findsByName⟩
  rw [inStep.shows.instructions, inStep.shows.formats]
  exact (InstructionSet.formatsOwned_carriedOut name requests).owned

end Registry

end MachineDescription
