import MachineDescription.Proofs.Decoding
import MachineDescription.Proofs.Drafting

namespace MachineDescription

namespace InstructionSet

/-- The storage is a resource of the instruction set, as this very declaration. -/
def Owns (s : InstructionSet) (storage : Declared Tensor) : Prop :=
  ∃ t, .register t ∈ s.resources ∧ t.isSame storage = true

theorem ownsTensor_iff {s : InstructionSet} {storage : Declared Tensor} :
    s.ownsTensor storage = true ↔ s.Owns storage := by
  simp only [ownsTensor, List.any_eq_true, Owns]
  constructor
  · rintro ⟨resource, member, same⟩
    cases resource with
    | register t => exact ⟨t, member, same⟩
    | signal | memory | artificial => cases same
  · rintro ⟨t, member, same⟩
    exact ⟨.register t, member, same⟩

theorem Owns.of_isSame {s : InstructionSet} {r q : Register} (owned : s.Owns r.file)
    (same : r.isSame q = true) : s.Owns q.file := by
  obtain ⟨t, member, declared⟩ := owned
  obtain ⟨file, _⟩ := Register.isSame_iff.mp same
  refine ⟨t, member, ?_⟩
  simpa [Declared.isSame, file] using declared

theorem owns_of_counterFinding? {s : InstructionSet} {c : Counter}
    (harmless : ∀ d ∈ s.counterFinding? c, d.isError = false) : s.Owns c.tensor := by
  rw [← ownsTensor_iff]
  by_contra foreign
  have report := harmless _ (if_neg foreign)
  cases report

/-- The file of a register is looked for wherever a convention uses the register. -/
theorem owns_of_useFinding? {s : InstructionSet} {r : Register} (c : Convention) (use : String)
    (harmless : ∀ d ∈ s.useFinding? c use r, d.isError = false) : s.Owns r.file := by
  rw [← ownsTensor_iff]
  by_contra foreign
  have report := harmless _ (if_neg foreign)
  cases report

/-- The verifier looks for the resource that an artificial one wraps, by its name. -/
theorem exists_resource_of_artificialFinding? {s : InstructionSet} {a : Artificial} {inner : Name}
    (wraps : a.inner = some inner) (harmless : ∀ d ∈ s.artificialFinding? a, d.isError = false) :
    ∃ r ∈ s.resources, s.resource? inner.qualified = some r := by
  unfold artificialFinding? at harmless
  rw [wraps, Option.bind_some] at harmless
  cases found : s.resource? inner.qualified with
  | none =>
    rw [found] at harmless
    cases harmless _ rfl
  | some r =>
    obtain ⟨d, known, isResource⟩ := Option.bind_eq_some_iff.mp found
    exact ⟨r, List.mem_filterMap.mpr ⟨d, List.mem_of_find?_eq_some known, isResource⟩, rfl⟩

section Verified

variable {s : InstructionSet} {warnings : List Diagnostic} (verified : s.verify = .ok warnings)

include verified

theorem owns_of_counter {c : Counter} (member : c ∈ s.counters) : s.Owns c.tensor := by
  obtain ⟨rfl, harmless⟩ := verify_eq_ok_iff.mp verified
  refine owns_of_counterFinding? fun d report => harmless d ?_
  exact mem_findings.mpr (.inr (.inr (.inl ⟨c, member, report⟩)))

/-- Every register of a convention is of a file that the instruction set owns. -/
theorem owns_of_refersTo {c : Convention} (member : c ∈ s.conventions) {r : Register}
    (refers : c.RefersTo r) : s.Owns r.file := by
  obtain ⟨rfl, harmless⟩ := verify_eq_ok_iff.mp verified
  obtain ⟨use, listed⟩ := Convention.mem_uses_of_refersTo refers
  refine owns_of_useFinding? c use fun d report => harmless d ?_
  have reported : d ∈ s.conventionFindings c :=
    List.mem_append_left _ (List.mem_filterMap.mpr ⟨(use, r), listed, report⟩)
  exact mem_findings.mpr (.inr (.inr (.inr (.inl ⟨c, member, reported⟩))))

theorem exists_resource_of_artificial {a : Artificial} (member : .artificial a ∈ s.resources)
    {inner : Name} (wraps : a.inner = some inner) :
    ∃ r ∈ s.resources, s.resource? inner.qualified = some r := by
  obtain ⟨rfl, harmless⟩ := verify_eq_ok_iff.mp verified
  refine exists_resource_of_artificialFinding? wraps fun d report => harmless d ?_
  have reported : d ∈ s.resourceFindings (.artificial a) := Option.mem_toList.mpr report
  exact mem_findings.mpr (.inr (.inl ⟨_, member, reported⟩))

end Verified

end InstructionSet

/-- The convention with other alignments of files. -/
def Convention.realigned (c : Convention) (alignments : List (Declared Tensor × Alignment)) :
    Convention :=
  { c with usage := { c.usage with fileAlignments := alignments } }

/-- The definition, a convention with the alignments that are given for it. -/
def Definition.realigned (alignments : Convention → List (Declared Tensor × Alignment)) :
    Definition → Definition
  | .convention c => .convention (c.realigned (alignments c))
  | d => d

namespace InstructionSet

variable (alignments : Convention → List (Declared Tensor × Alignment))

def realigned (s : InstructionSet) : InstructionSet :=
  ⟨s.name, s.definitions.map (·.realigned alignments)⟩

/-- A kind that no convention is of picks the same as before. -/
theorem filterMap_realigned {α : Type} (kind : Definition → Option α)
    (other : ∀ c, kind (.convention c) = none) (definitions : List Definition) :
    (definitions.map (·.realigned alignments)).filterMap kind = definitions.filterMap kind := by
  rw [List.filterMap_map]
  refine List.filterMap_congr fun d _ => ?_
  cases d with
  | convention c => exact (other _).trans (other c).symm
  | format | resource | counter | instruction => rfl

theorem conventions_realigned (s : InstructionSet) :
    (s.realigned alignments).conventions =
      s.conventions.map fun c => c.realigned (alignments c) := by
  simp only [conventions, realigned, List.filterMap_map, List.map_filterMap]
  refine List.filterMap_congr fun d _ => ?_
  cases d <;> rfl

theorem resource?_realigned (s : InstructionSet) (name : String) :
    (s.realigned alignments).resource? name = s.resource? name := by
  have named : (fun d : Definition => (d.realigned alignments).name.qualified == name) =
      fun d => d.name.qualified == name := by
    funext d
    cases d <;> rfl
  simp only [resource?, definition?, realigned, List.find?_map, Function.comp_def, named]
  cases s.definitions.find? (fun d => d.name.qualified == name) with
  | none => rfl
  | some d => cases d <;> rfl

theorem resources_realigned (s : InstructionSet) :
    (s.realigned alignments).resources = s.resources :=
  filterMap_realigned alignments _ (fun _ => rfl) _

theorem ownsTensor_realigned (s : InstructionSet) :
    (s.realigned alignments).ownsTensor = s.ownsTensor := by
  funext storage
  rw [ownsTensor, ownsTensor, resources_realigned]

theorem resourceFindings_realigned (s : InstructionSet) :
    (s.realigned alignments).resourceFindings = s.resourceFindings := by
  funext resource
  cases resource with
  | artificial a =>
    simp only [resourceFindings, artificialFinding?, resource?_realigned]
    rfl
  | signal | register | memory => rfl

theorem counterFinding?_realigned (s : InstructionSet) :
    (s.realigned alignments).counterFinding? = s.counterFinding? := by
  funext c
  simp only [counterFinding?, ownsTensor_realigned]
  rfl

/-- Files that a convention aligns as a whole are not looked at. -/
theorem conventionFindings_realigned (s : InstructionSet) (c : Convention) :
    (s.realigned alignments).conventionFindings (c.realigned (alignments c)) =
      s.conventionFindings c := by
  simp only [conventionFindings, useFinding?, ownsTensor_realigned]
  rfl

/-- No report is about the alignment of a file. -/
theorem findings_realigned (s : InstructionSet) :
    (s.realigned alignments).findings = s.findings := by
  have formats : (s.realigned alignments).formats = s.formats :=
    filterMap_realigned alignments _ (fun _ => rfl) _
  have counters : (s.realigned alignments).counters = s.counters :=
    filterMap_realigned alignments _ (fun _ => rfl) _
  have instructions : (s.realigned alignments).instructions = s.instructions :=
    filterMap_realigned alignments _ (fun _ => rfl) _
  simp only [findings, formats, resources_realigned, resourceFindings_realigned, counters,
    counterFinding?_realigned, conventions_realigned, List.flatMap_map,
    conventionFindings_realigned, instructions]

theorem verify_realigned (s : InstructionSet) : (s.realigned alignments).verify = s.verify := by
  rw [verify, verify, findings_realigned]

/-- In a verified instruction set the storage of every counter is owned, and so is the file of every
register that a convention refers to, by whichever call it came there; what an artificial resource
wraps is found. The files that conventions align are not looked at: whatever alignments there are,
verification ends the same way. -/
theorem references_owned {s : InstructionSet} {warnings : List Diagnostic}
    (verified : s.verify = .ok warnings) :
    (∀ c ∈ s.counters, s.Owns c.tensor) ∧
      (∀ c ∈ s.conventions, ∀ r, c.RefersTo r → s.Owns r.file) ∧
      (∀ c ∈ s.conventions, ∀ name calls, (Convention.Draft.drafted name calls).finish = .ok c →
        ∀ call ∈ accepted Convention.Draft.perform (.empty name) calls, ∀ r ∈ call.registers,
          s.Owns r.file) ∧
      (∀ a, .artificial a ∈ s.resources → ∀ inner, a.inner = some inner →
        ∃ r ∈ s.resources, s.resource? inner.qualified = some r) ∧
      ∀ alignments, (s.realigned alignments).verify = .ok warnings := by
  refine ⟨fun c member => owns_of_counter verified member,
    fun c member r refers => owns_of_refersTo verified member refers, ?_,
    fun a member inner wraps => exists_resource_of_artificial verified member wraps,
    fun alignments => (verify_realigned alignments s).trans verified⟩
  intro c member name calls finished call accepted q given
  obtain ⟨r, refers, same⟩ := Convention.exists_refersTo_of_call finished accepted given
  exact (owns_of_refersTo verified member refers).of_isSame same

/-- The registers of the file `X` under another name. -/
def renamedFile : Artificial where
  name := .ofParts ["W"]
  kind := .registerFileAlias
  inner := some (.ofParts ["X"])
  address? := some (.bits 5)
  resultType := .bits 32
  read := ⟨.ofParts ["W", "read"], [⟨.ofParts ["i"], .bits 5⟩], .bits 32,
    .read (.ofParts ["X"]) [.ref .parameter (.ofParts ["i"])]⟩
  write := ⟨.ofParts ["W", "write"], [⟨.ofParts ["i"], .bits 5⟩, ⟨.ofParts ["v"], .bits 32⟩],
    [⟨.ofParts ["X"], [.ref .parameter (.ofParts ["i"])], .ref .parameter (.ofParts ["v"])⟩]⟩

def exampleCalls (link stack : Register) (aligned : Declared Tensor) : List Convention.Call :=
  [.pointer .returnAddress link, .pointer .returnAddress stack, .pointer .stackPointer stack,
    .pointer .framePointer stack, .pointer .globalPointer link, .name link "ra", .name link "lr",
    .callerSaved [link], .calleeSaved [stack], .arguments [link], .results [link],
    .file aligned .word]

/-- The file `X` with another name for it, a counter in its register 15, and a convention over its
registers that aligns a file of the given name and serial number. -/
def ofAlignedFile (name : String) (serial : Nat) : Except Error InstructionSet := do
  let file ← Tensor.registerFile (.ofParts ["X"]) (.bits 5) (.bits 32)
  let aligned ← Tensor.registerFile (.ofParts [name]) (.bits 5) (.bits 32)
  let link ← Register.make ⟨0, file⟩ 1 .none
  let stack ← Register.make ⟨0, file⟩ 2 .word
  let convention ← (Convention.Draft.drafted (.ofParts ["C"])
    (exampleCalls link stack ⟨serial, aligned⟩)).finish
  let counter ← Counter.inElement (.ofParts ["PC"]) ⟨0, file⟩ (.wrap (.bits 5) 15) .current .program
  let s ← (empty (.ofParts ["K"])).addResource (.register ⟨0, file⟩)
  let s ← s.addResource (.artificial (← renamedFile.check))
  let s ← s.addCounter counter
  s.addConvention convention

theorem references_owned_alignedFile :
    ∃ s, ofAlignedFile "X" 0 = .ok s ∧ s.verify = .ok [] ∧ s.counters.length = 1 ∧
      s.conventions.length = 1 ∧ (∃ a, .artificial a ∈ s.resources ∧ a.inner.isSome = true) ∧
      (∀ c ∈ s.counters, s.Owns c.tensor) ∧
      (∀ c ∈ s.conventions, ∀ r, c.RefersTo r → s.Owns r.file) ∧
      ∀ a, .artificial a ∈ s.resources → ∀ inner, a.inner = some inner →
        ∃ r ∈ s.resources, s.resource? inner.qualified = some r := by
  obtain ⟨s, made, verified, counters, conventions, wrapper⟩ :
      ∃ s, ofAlignedFile "X" 0 = .ok s ∧ s.verify = .ok [] ∧ s.counters.length = 1 ∧
        s.conventions.length = 1 ∧ ∃ a, .artificial a ∈ s.resources ∧ a.inner.isSome = true :=
    ⟨_, rfl, rfl, rfl, rfl, renamedFile, List.mem_cons_of_mem _ List.mem_cons_self, rfl⟩
  obtain ⟨owned, referred, _, wrapped, _⟩ := references_owned verified
  exact ⟨s, made, verified, counters, conventions, wrapper, owned, referred, wrapped⟩

/-- The convention aligns the file `Y`, which the instruction set does not own, and nothing is
reported. -/
theorem foreign_file_aligned :
    ∃ s, ofAlignedFile "Y" 1 = .ok s ∧ s.verify = .ok [] ∧ ∃ c ∈ s.conventions,
      ∃ entry ∈ c.usage.fileAlignments, ¬s.Owns entry.1 := by
  refine ⟨_, rfl, rfl, _, List.mem_singleton_self _, _, List.mem_singleton_self _, ?_⟩
  rw [← ownsTensor_iff]
  decide

end InstructionSet

end MachineDescription
