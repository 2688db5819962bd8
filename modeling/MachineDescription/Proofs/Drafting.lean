import MachineDescription.Convention.Basic
import MachineDescription.Proofs.Construction

namespace MachineDescription

namespace Register

theorem isSame_iff {r s : Register} :
    r.isSame s = true ↔ r.file.serial = s.file.serial ∧ r.index = s.index := by
  simp [isSame, Declared.isSame]

theorem isSame_refl (r : Register) : r.isSame r = true :=
  isSame_iff.mpr ⟨rfl, rfl⟩

/-- Registers of one place are known alike; the alignment does not count. -/
theorem isSame_congr {r s : Register} (same : r.isSame s = true) (q : Register) :
    r.isSame q = true ↔ s.isSame q = true := by
  obtain ⟨file, index⟩ := isSame_iff.mp same
  rw [isSame_iff, isSame_iff, file, index]

end Register

namespace Alias

/-- An entry of the table is about the same element. -/
def Knows (table : List Alias) (q : Register) : Prop :=
  ∃ entry ∈ table, entry.register.isSame q = true

theorem knows_cons {entry : Alias} {rest : List Alias} {q : Register} :
    Knows (entry :: rest) q ↔ entry.register.isSame q = true ∨ Knows rest q := by
  simp only [Knows, List.mem_cons, exists_eq_or_imp]

/-- A register that is named twice stands in one entry, so it is known as an element of its file and
not with the alignment of the later call. -/
theorem knows_add {register : Register} {name : String} {table : List Alias} {q : Register} :
    Knows (add register name table) q ↔ Knows table q ∨ register.isSame q = true := by
  induction table with
  | nil => simp [Knows, add]
  | cons entry rest ih =>
    unfold add
    split
    · rename_i same
      have element := Register.isSame_congr same q
      rw [knows_cons, knows_cons, element, or_right_comm, or_self]
    · rw [knows_cons, knows_cons, ih, or_assoc]

end Alias

namespace Convention

/-- A step in drafting a convention. -/
inductive Call where
  | pointer (role : PointerRole) (register : Register)
  | name (register : Register) (name : String)
  | callerSaved (registers : List Register)
  | calleeSaved (registers : List Register)
  | arguments (registers : List Register)
  | results (registers : List Register)
  | stack (alignment transient : Alignment)
  | file (file : Declared Tensor) (alignment : Alignment)

/-- The registers that a call gives to a draft. -/
def Call.registers : Call → List Register
  | pointer _ register | name register _ => [register]
  | callerSaved registers | calleeSaved registers | arguments registers | results registers =>
    registers
  | stack .. | file .. => []

/-- A register has a place among the pointers or the uses of a convention. -/
inductive Places (pointer? : PointerRole → Option Register) (u : Usage) (r : Register) : Prop where
  | pointer (role : PointerRole) (assigned : pointer? role = some r)
  | callerSaved (member : r ∈ u.callerSaved)
  | calleeSaved (member : r ∈ u.calleeSaved)
  | argument (member : r ∈ u.arguments)
  | result (member : r ∈ u.results)
  | named (entry : Alias) (member : entry ∈ u.aliases) (same : entry.register = r)

namespace Draft

def perform (d : Draft) : Call → Except Error Draft
  | .pointer role register => d.assign role register
  | .name register name => d.nameRegister register name
  | .callerSaved registers => .ok (d.addCallerSaved registers)
  | .calleeSaved registers => .ok (d.addCalleeSaved registers)
  | .arguments registers => .ok (d.addArguments registers)
  | .results registers => .ok (d.addResults registers)
  | .stack alignment transient => .ok (d.alignStack alignment transient)
  | .file file alignment => .ok (d.alignFile file alignment)

/-- The draft of a sequence of calls. -/
def drafted (name : Name) (calls : List Call) : Draft :=
  attempts perform (empty name) calls

/-- A register with a place in the draft is the same element. -/
def Knows (d : Draft) (q : Register) : Prop :=
  ∃ r, Places d.pointer? d.usage r ∧ r.isSame q = true

theorem knows_iff {d : Draft} {q : Register} :
    d.Knows q ↔ (∃ role r, d.pointer? role = some r ∧ r.isSame q = true) ∨
      (∃ r ∈ d.usage.callerSaved, r.isSame q = true) ∨
      (∃ r ∈ d.usage.calleeSaved, r.isSame q = true) ∨
      (∃ r ∈ d.usage.arguments, r.isSame q = true) ∨
      (∃ r ∈ d.usage.results, r.isSame q = true) ∨ Alias.Knows d.usage.aliases q := by
  constructor
  · rintro ⟨r, place, same⟩
    cases place with
    | pointer role assigned => exact .inl ⟨role, r, assigned, same⟩
    | callerSaved member => exact .inr (.inl ⟨r, member, same⟩)
    | calleeSaved member => exact .inr (.inr (.inl ⟨r, member, same⟩))
    | argument member => exact .inr (.inr (.inr (.inl ⟨r, member, same⟩)))
    | result member => exact .inr (.inr (.inr (.inr (.inl ⟨r, member, same⟩))))
    | named entry member about =>
      exact .inr (.inr (.inr (.inr (.inr ⟨entry, member, about ▸ same⟩))))
  · rintro (⟨role, r, assigned, same⟩ | ⟨r, member, same⟩ | ⟨r, member, same⟩ | ⟨r, member, same⟩ |
      ⟨r, member, same⟩ | ⟨entry, member, same⟩)
    · exact ⟨r, .pointer role assigned, same⟩
    · exact ⟨r, .callerSaved member, same⟩
    · exact ⟨r, .calleeSaved member, same⟩
    · exact ⟨r, .argument member, same⟩
    · exact ⟨r, .result member, same⟩
    · exact ⟨entry.register, .named entry member rfl, same⟩

theorem not_knows_empty (name : Name) (q : Register) : ¬(empty name).Knows q := by
  rw [knows_iff]
  simp [empty, Usage.empty, Alias.Knows]

theorem assign_eq_ok {d after : Draft} {role : PointerRole} {register : Register}
    (made : d.assign role register = .ok after) :
    d.pointer? role = none ∧
      after = { d with pointer? := fun r => if r = role then some register else d.pointer? r } := by
  unfold assign at made
  split at made
  · cases made
  · rename_i free
    cases made
    exact ⟨free, rfl⟩

theorem nameRegister_eq_ok {d after : Draft} {register : Register} {name : String}
    (made : d.nameRegister register name = .ok after) :
    Alias.register? d.usage.aliases name = none ∧
      after = { d with
        usage := { d.usage with aliases := Alias.add register name d.usage.aliases } } := by
  unfold nameRegister at made
  split at made
  · cases made
  · rename_i free
    cases made
    exact ⟨free, rfl⟩

/-- A role that no register had is given to one; the others keep theirs. -/
theorem knows_assign {d after : Draft} {role : PointerRole} {register q : Register}
    (made : d.assign role register = .ok after) :
    after.Knows q ↔ d.Knows q ∨ register.isSame q = true := by
  obtain ⟨free, rfl⟩ := assign_eq_ok made
  have pointers : (∃ other r, (if other = role then some register else d.pointer? other) = some r ∧
      r.isSame q = true) ↔
        (∃ other r, d.pointer? other = some r ∧ r.isSame q = true) ∨ register.isSame q = true := by
    constructor
    · rintro ⟨other, r, assigned, same⟩
      split at assigned
      · cases assigned
        exact .inr same
      · exact .inl ⟨other, r, assigned, same⟩
    · rintro (⟨other, r, assigned, same⟩ | same)
      · have different : other ≠ role := by
          rintro rfl
          cases free.symm.trans assigned
        exact ⟨other, r, by rw [if_neg different, assigned], same⟩
      · exact ⟨role, register, if_pos rfl, same⟩
  simp only [knows_iff, pointers]
  grind only

/-- A call that succeeds adds its registers to those that the draft knows. -/
theorem knows_perform {d after : Draft} {call : Call} (made : d.perform call = .ok after)
    (q : Register) :
    after.Knows q ↔ d.Knows q ∨ ∃ r ∈ call.registers, r.isSame q = true := by
  cases call with
  | pointer role register => simpa [Call.registers] using knows_assign made
  | name register name =>
    obtain ⟨_, rfl⟩ := nameRegister_eq_ok made
    simp only [knows_iff, Alias.knows_add, Call.registers, List.mem_singleton, exists_eq_left]
    grind only
  | callerSaved registers | calleeSaved registers | arguments registers | results registers =>
    cases made
    simp only [knows_iff, addCallerSaved, addCalleeSaved, addArguments, addResults, Call.registers,
      List.mem_append, or_and_right, exists_or]
    grind only
  | stack alignment transient | file file alignment =>
    cases made
    simp [knows_iff, alignStack, alignFile, Call.registers]

/-- A register that has a place in a draft keeps it, so a draft knows exactly the registers of the
calls that succeeded. -/
theorem knows_drafted {name : Name} {calls : List Call} {q : Register} :
    (drafted name calls).Knows q ↔
      ∃ call ∈ accepted perform (empty name) calls, ∃ r ∈ call.registers, r.isSame q = true := by
  have added : ∀ before call after, perform before call = .ok after →
      (after.Knows q ↔ before.Knows q ∨ ∃ r ∈ call.registers, r.isSame q = true) :=
    fun _ _ _ made => knows_perform made q
  rw [drafted, attempts_iff added, or_iff_right (not_knows_empty name q)]

theorem required_eq_ok {d : Draft} {role : PointerRole} {r : Register}
    (found : d.required role = .ok r) : d.pointer? role = some r := by
  unfold required at found
  split at found
  · rename_i assigned
    cases found
    exact assigned
  · cases found

/-- A finished convention has the pointers and the uses of its draft. -/
theorem finish_eq_ok {d : Draft} {c : Convention} (finished : d.finish = .ok c) :
    c.pointer? = d.pointer? ∧ c.usage = d.usage := by
  obtain ⟨returnAddress, atReturn, finished⟩ := exists_ok_of_bind finished
  obtain ⟨stackPointer, atStack, finished⟩ := exists_ok_of_bind finished
  obtain ⟨framePointer, atFrame, finished⟩ := exists_ok_of_bind finished
  obtain ⟨globalPointer, atGlobal, finished⟩ := exists_ok_of_bind finished
  cases finished
  refine ⟨funext fun role => ?_, rfl⟩
  cases role with
  | returnAddress => exact (required_eq_ok atReturn).symm
  | stackPointer => exact (required_eq_ok atStack).symm
  | framePointer => exact (required_eq_ok atFrame).symm
  | globalPointer => exact (required_eq_ok atGlobal).symm
  | threadPointer => rfl

end Draft

/-- The convention refers to the register. -/
def RefersTo (c : Convention) (r : Register) : Prop :=
  Places c.pointer? c.usage r

/-- Whatever register a call has given to a convention, it refers to this element. -/
theorem exists_refersTo_of_call {name : Name} {calls : List Call} {c : Convention}
    (finished : (Draft.drafted name calls).finish = .ok c) {call : Call}
    (accepted : call ∈ accepted Draft.perform (.empty name) calls) {q : Register}
    (given : q ∈ call.registers) : ∃ r, c.RefersTo r ∧ r.isSame q = true := by
  obtain ⟨pointers, usage⟩ := Draft.finish_eq_ok finished
  unfold RefersTo
  rw [pointers, usage]
  exact Draft.knows_drafted.mpr ⟨call, accepted, q, given, q.isSame_refl⟩

/-- The collected uses are complete. -/
theorem mem_uses_of_refersTo {c : Convention} {r : Register} (refers : c.RefersTo r) :
    ∃ use, (use, r) ∈ c.uses := by
  simp only [uses, List.mem_append]
  cases refers with
  | pointer role assigned =>
    have listed : role ∈ PointerRole.all := by cases role <;> decide
    refine ⟨role.label, .inl (.inl (.inl (.inl (.inl ?_))))⟩
    exact List.mem_filterMap.mpr ⟨role, listed, by rw [assigned]; rfl⟩
  | callerSaved member => exact ⟨_, .inl (.inl (.inl (.inl (.inr (List.mem_map_of_mem member)))))⟩
  | calleeSaved member => exact ⟨_, .inl (.inl (.inl (.inr (List.mem_map_of_mem member))))⟩
  | argument member => exact ⟨_, .inl (.inl (.inr (List.mem_map_of_mem member)))⟩
  | result member => exact ⟨_, .inl (.inr (List.mem_map_of_mem member))⟩
  | named entry member about => exact ⟨_, .inr (List.mem_map.mpr ⟨entry, member, by rw [about]⟩)⟩

end Convention

end MachineDescription
