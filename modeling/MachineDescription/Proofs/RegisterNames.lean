import MachineDescription.Proofs.Drafting
import MachineDescription.Proofs.Evaluation
import Mathlib.Data.List.AList

namespace MachineDescription

theorem Register.isSame_comm (r s : Register) : r.isSame s = s.isSame r := by
  rw [Bool.eq_iff_iff, isSame_iff, isSame_iff, eq_comm, @eq_comm _ r.index]

namespace Alias

variable {table : List Alias} {register : Register} {name : String}

def withName (entry : Alias) (name : String) : Alias :=
  { entry with names := entry.names ++ [name] }

/-- The names in a table, entry by entry. -/
def allNames (table : List Alias) : List String :=
  table.flatMap (·.names)

/-- No two entries are about the same register. -/
def Apart (table : List Alias) : Prop :=
  table.Pairwise fun entry other => entry.register.isSame other.register = false

/-- Every name stands once in the table, and every register has one entry. -/
structure Distinct (table : List Alias) : Prop where
  names : (allNames table).Nodup
  registers : Apart table

/-- An entry of the table is about the register and has the name. -/
def Gives (table : List Alias) (register : Register) (name : String) : Prop :=
  ∃ entry ∈ table, entry.register.isSame register = true ∧ name ∈ entry.names

/-- The place of the entry of a register, or the end of the table. -/
def place (table : List Alias) (register : Register) : Nat :=
  table.findIdx (·.register.isSame register)

theorem mem_allNames : name ∈ allNames table ↔ ∃ entry ∈ table, name ∈ entry.names :=
  List.mem_flatMap

theorem mem_allNames_iff_gives : name ∈ allNames table ↔ ∃ register, Gives table register name := by
  rw [mem_allNames]
  constructor
  · rintro ⟨entry, member, named⟩
    exact ⟨entry.register, entry, member, entry.register.isSame_refl, named⟩
  · rintro ⟨_, entry, member, _, named⟩
    exact ⟨entry, member, named⟩

/-- A name goes into one entry more, and into one list more. -/
theorem allNames_add (table : List Alias) (register : Register) (name : String) :
    (allNames (add register name table)).Perm (name :: allNames table) := by
  induction table with
  | nil => exact .refl _
  | cons entry rest ih =>
    unfold add
    split
    · change ((entry.names ++ [name]) ++ allNames rest).Perm
        (name :: (entry.names ++ allNames rest))
      rw [List.append_assoc]
      exact List.perm_middle
    · change (entry.names ++ allNames (add register name rest)).Perm
        (name :: (entry.names ++ allNames rest))
      exact (ih.append_left entry.names).trans List.perm_middle

/-- What stands at a place after a name is added: at the place of the register one name more, and
elsewhere what was there. -/
theorem getElem?_add (table : List Alias) (register : Register) (name : String) (index : Nat) :
    (add register name table)[index]? =
      if index = place table register then
        some (((table[index]?).getD ⟨register, []⟩).withName name)
      else table[index]? := by
  induction table generalizing index with
  | nil => cases index <;> rfl
  | cons entry rest ih =>
    unfold add place
    rw [List.findIdx_cons]
    cases same : entry.register.isSame register with
    | true => cases index <;> rfl
    | false =>
      cases index with
      | zero => rfl
      | succ index => exact (ih index).trans (if_congr Nat.succ_inj.symm rfl rfl)

/-- The entry at a place has the name. -/
def StandsAt (table : List Alias) (name : String) (index : Nat) : Prop :=
  ∃ entry, table[index]? = some entry ∧ name ∈ entry.names

theorem standsAt_add {given : String} {index : Nat} :
    StandsAt (add register given table) name index ↔
      StandsAt table name index ∨ name = given ∧ place table register = index := by
  unfold StandsAt
  rw [getElem?_add]
  by_cases here : index = place table register
  · subst here
    cases table[place table register]? <;> simp [withName]
  · simp [here, Ne.symm here]

theorem exists_standsAt_iff : (∃ index, StandsAt table name index) ↔ name ∈ allNames table := by
  simp only [StandsAt, mem_allNames, @List.mem_iff_getElem? Alias]
  grind only

/-- With an entry for the register, the name is added in its place. -/
theorem add_of_found {index : Nat}
    (found : table.findIdx? (·.register.isSame register) = some index) :
    place table register = index ∧
      add register name table = table.modify index (·.withName name) := by
  obtain ⟨inside, placed⟩ := List.findIdx?_eq_some_iff_findIdx_eq.mp found
  change place table register = index at placed
  refine ⟨placed, List.ext_getElem? fun other => ?_⟩
  rw [getElem?_add, List.getElem?_modify, placed]
  by_cases here : other = index
  · subst here
    simp [inside]
  · simp [here, Ne.symm here]

/-- Without one, an entry is made at the end. -/
theorem add_of_absent (absent : table.findIdx? (·.register.isSame register) = none) :
    place table register = table.length ∧
      add register name table =
        (table ++ [(⟨register, []⟩ : Alias)]).modify table.length (·.withName name) := by
  have placed : place table register = table.length :=
    List.findIdx_eq_length.mpr (List.findIdx?_eq_none_iff.mp absent)
  refine ⟨placed, List.ext_getElem? fun other => ?_⟩
  rw [getElem?_add, List.getElem?_modify, getElem?_snoc, placed]
  by_cases here : other = table.length
  · subst here
    simp
  · simp [here, Ne.symm here]

theorem gives_cons {entry : Alias} :
    Gives (entry :: table) register name ↔
      (entry.register.isSame register = true ∧ name ∈ entry.names) ∨ Gives table register name := by
  simp only [Gives, List.mem_cons, exists_eq_or_imp]

theorem gives_add {other : Register} {given : String} :
    Gives (add other given table) register name ↔
      Gives table register name ∨ other.isSame register = true ∧ given = name := by
  induction table with
  | nil => simp [Gives, add, @eq_comm _ name]
  | cons entry rest ih =>
    unfold add
    split
    · rename_i same
      rw [gives_cons, gives_cons, List.mem_append, List.mem_singleton, @eq_comm _ name,
        and_or_left, Register.isSame_congr same register, or_right_comm]
    · rw [gives_cons, gives_cons, ih, or_assoc]

theorem apart_cons {entry : Alias} :
    Apart (entry :: table) ↔ ¬Knows table entry.register ∧ Apart table := by
  simp only [Apart, List.pairwise_cons, Knows, not_exists, not_and, Bool.not_eq_true,
    Register.isSame_comm entry.register]

theorem Apart.add (apart : Apart table) : Apart (add register name table) := by
  induction table with
  | nil => exact List.pairwise_singleton _ _
  | cons entry rest ih =>
    obtain ⟨unknown, apart⟩ := apart_cons.mp apart
    unfold Alias.add
    split
    · exact apart_cons.mpr ⟨unknown, apart⟩
    · rename_i different
      refine apart_cons.mpr ⟨?_, ih apart⟩
      rw [knows_add, not_or, Register.isSame_comm]
      exact ⟨unknown, different⟩

namespace Distinct

theorem empty : Distinct [] :=
  ⟨List.nodup_nil, .nil⟩

/-- Two entries with a common name are one. -/
theorem eq_of_name (distinct : Distinct table) {entry other : Alias} (member : entry ∈ table)
    (memberToo : other ∈ table) (named : name ∈ entry.names) (namedToo : name ∈ other.names) :
    entry = other := by
  obtain ⟨_, apart⟩ := List.nodup_flatMap.mp distinct.names
  have : Std.Symm (Function.onFun List.Disjoint Alias.names) :=
    ⟨fun _ _ apart _ left right => apart right left⟩
  by_contra different
  exact apart.forall member memberToo different named namedToo

/-- Two entries about one register are one. -/
theorem eq_of_register (distinct : Distinct table) {entry other : Alias} (member : entry ∈ table)
    (memberToo : other ∈ table) (same : entry.register.isSame register = true)
    (sameToo : other.register.isSame register = true) : entry = other := by
  have : Std.Symm fun entry other : Alias => entry.register.isSame other.register = false :=
    ⟨fun entry other apart => (other.register.isSame_comm entry.register).trans apart⟩
  by_contra different
  have apart := distinct.registers.forall member memberToo different
  rw [Register.isSame_comm] at sameToo
  rw [(Register.isSame_congr same _).mpr sameToo] at apart
  cases apart

/-- As every name stands once, the first entry with a name is the only one. -/
theorem register?_eq_some_iff (distinct : Distinct table) {holder : Register} :
    register? table name = some holder ↔
      ∃ entry ∈ table, name ∈ entry.names ∧ entry.register = holder := by
  have found (entry : Alias) : table.find? (·.names.contains name) = some entry ↔
      entry ∈ table ∧ entry.names.contains name = true :=
    find?_eq_some_iff_of_unique fun other memberToo member named namedToo =>
      distinct.eq_of_name memberToo member (List.contains_iff_mem.mp namedToo)
        (List.contains_iff_mem.mp named)
  simp only [register?, Option.map_eq_some_iff, found, List.contains_iff_mem, and_assoc]

theorem register?_eq_none_iff (distinct : Distinct table) :
    register? table name = none ↔ name ∉ allNames table := by
  simp only [Option.eq_none_iff_forall_ne_some, ne_eq, distinct.register?_eq_some_iff, mem_allNames]
  grind only

theorem mem_namesOf_iff (distinct : Distinct table) :
    name ∈ namesOf table register ↔ Gives table register name := by
  have found (entry : Alias) : forRegister? table register = some entry ↔
      entry ∈ table ∧ entry.register.isSame register = true :=
    find?_eq_some_iff_of_unique fun other memberToo member same sameToo =>
      distinct.eq_of_register memberToo member sameToo same
  have listed : name ∈ namesOf table register ↔
      ∃ entry, forRegister? table register = some entry ∧ name ∈ entry.names := by
    unfold namesOf
    cases forRegister? table register <;> simp
  simp only [listed, found, Gives, and_assoc]

/-- The two questions undo each other. -/
theorem mem_namesOf_iff_register? (distinct : Distinct table) :
    name ∈ namesOf table register ↔
      ∃ holder, register? table name = some holder ∧ holder.isSame register = true := by
  rw [distinct.mem_namesOf_iff]
  constructor
  · rintro ⟨entry, member, same, named⟩
    exact ⟨_, distinct.register?_eq_some_iff.mpr ⟨entry, member, named, rfl⟩, same⟩
  · rintro ⟨holder, found, same⟩
    obtain ⟨entry, member, named, rfl⟩ := distinct.register?_eq_some_iff.mp found
    exact ⟨entry, member, same, named⟩

theorem add (distinct : Distinct table) (fresh : name ∉ allNames table) (register : Register) :
    Distinct (add register name table) where
  names := (allNames_add table register name).nodup_iff.mpr
    (List.nodup_cons.mpr ⟨fresh, distinct.names⟩)
  registers := distinct.registers.add

end Distinct

end Alias

namespace Convention

/-- A draft, and an index that gives the place in the table for each name. A call writes the two one
after the other, and nothing takes back what it has written before it fails. -/
structure Roster where
  draft : Draft
  index : AList fun _ : String => Nat

namespace Roster

def empty (name : Name) : Roster :=
  ⟨.empty name, ∅⟩

def entries (r : Roster) : List Alias :=
  r.draft.usage.aliases

def withEntries (r : Roster) (entries : List Alias) : Roster :=
  { r with draft := { r.draft with usage := { r.draft.usage with aliases := entries } } }

/-- The register in the place that the index gives for the name. -/
def register? (r : Roster) (name : String) : Option Register :=
  (r.index.lookup name).bind fun place => r.entries[place]?.map (·.register)

/-- A change to the draft that does not touch the index. -/
def update (change : Draft → Draft) : Run Roster Unit :=
  modify fun r => { r with draft := change r.draft }

def assign (role : PointerRole) (register : Register) : Run Roster Unit := do
  let r ← get
  match r.draft.pointer? role with
  | some bound => liftM (r.draft.refuse (.pointerTwice role bound.render register.render))
  | none =>
    update fun d => { d with pointer? := fun q => if q = role then some register else d.pointer? q }

/-- The place of the entry for a register, which is made if there is none. -/
def entryFor (register : Register) : Run Roster Nat := do
  let r ← get
  match r.entries.findIdx? (·.register.isSame register) with
  | some place => return place
  | none =>
    modify fun r => r.withEntries (r.entries ++ [⟨register, []⟩])
    return r.entries.length

def nameRegister (register : Register) (name : String) : Run Roster Unit := do
  let r ← get
  match r.register? name with
  | some holder => liftM (r.draft.refuse (.aliasTwice name holder.render register.render))
  | none =>
    let place ← entryFor register
    modify fun r => r.withEntries (r.entries.modify place (·.withName name))
    modify fun r => { r with index := r.index.insert name place }

def carryOut : Call → Run Roster Unit
  | .pointer role register => assign role register
  | .name register name => nameRegister register name
  | .callerSaved registers => update (·.addCallerSaved registers)
  | .calleeSaved registers => update (·.addCalleeSaved registers)
  | .arguments registers => update (·.addArguments registers)
  | .results registers => update (·.addResults registers)
  | .stack alignment transient => update (·.alignStack alignment transient)
  | .file file alignment => update (·.alignFile file alignment)

/-- What a call yields. -/
def answer (r : Roster) (call : Call) : Except Error Unit :=
  ((carryOut call).run r).1

/-- What a call leaves behind, also if it fails. -/
def after (r : Roster) (call : Call) : Roster :=
  ((carryOut call).run r).2

/-- The roster of a sequence of calls. -/
def carriedOut (name : Name) (calls : List Call) : Roster :=
  calls.foldl after (empty name)

/-- A name in the table and in the index at once. -/
def named (r : Roster) (register : Register) (name : String) : Roster :=
  { r.withEntries (Alias.add register name r.entries) with
    index := r.index.insert name (Alias.place r.entries register) }

theorem run_entryFor (r : Roster) (register : Register) :
    (entryFor register).run r =
      match r.entries.findIdx? (·.register.isSame register) with
      | some place => (.ok place, r)
      | none => (.ok r.entries.length, r.withEntries (r.entries ++ [⟨register, []⟩])) := by
  change (match r.entries.findIdx? (·.register.isSame register) with
    | some place => _
    | none => _ : Run Roster Nat).run r = _
  split <;> rfl

/-- The table and the index are written one after the other, but only after the check. -/
theorem run_nameRegister (r : Roster) (register : Register) (name : String) :
    (nameRegister register name).run r =
      match r.register? name with
      | some holder => (r.draft.refuse (.aliasTwice name holder.render register.render), r)
      | none => (.ok (), r.named register name) := by
  change (match r.register? name with
    | some holder => _
    | none => _ : Run Roster Unit).run r = _
  cases r.register? name with
  | some holder => rfl
  | none =>
    change (entryFor register >>= fun place => (do
      modify fun r => r.withEntries (r.entries.modify place (·.withName name))
      modify fun r => { r with index := r.index.insert name place })).run r = _
    rw [Run.run_bind, run_entryFor]
    unfold named
    cases found : r.entries.findIdx? (·.register.isSame register) with
    | some place =>
      obtain ⟨placed, added⟩ := @Alias.add_of_found _ _ name _ found
      rw [placed, added]
      rfl
    | none =>
      obtain ⟨placed, added⟩ := @Alias.add_of_absent _ _ name found
      rw [placed, added]
      rfl

/-- The index gives exactly the places where the names stand, each name in one. -/
structure Consistent (r : Roster) : Prop where
  distinct : Alias.Distinct r.entries
  placed : ∀ name place, r.index.lookup name = some place ↔ Alias.StandsAt r.entries name place

namespace Consistent

variable {r : Roster}

theorem empty (name : Name) : (empty name).Consistent where
  distinct := .empty
  placed _ _ := by simp [Roster.empty, entries, Draft.empty, Usage.empty, Alias.StandsAt]

theorem register?_eq (consistent : r.Consistent) (name : String) :
    r.register? name = Alias.register? r.entries name := by
  apply Option.ext
  intro holder
  rw [consistent.distinct.register?_eq_some_iff, register?, Option.bind_eq_some_iff]
  simp only [consistent.placed, Option.map_eq_some_iff]
  constructor
  · rintro ⟨place, ⟨entry, found, named⟩, other, foundToo, about⟩
    cases Option.some.inj (found.symm.trans foundToo)
    exact ⟨entry, List.mem_of_getElem? found, named, about⟩
  · rintro ⟨entry, member, named, about⟩
    obtain ⟨place, found⟩ := List.getElem?_of_mem member
    exact ⟨place, ⟨entry, found, named⟩, entry, found, about⟩

theorem named (consistent : r.Consistent) {name : String} (fresh : name ∉ Alias.allNames r.entries)
    (register : Register) : (r.named register name).Consistent where
  distinct := consistent.distinct.add fresh register
  placed n place := by
    change (r.index.insert name (Alias.place r.entries register)).lookup n = some place ↔
      Alias.StandsAt (Alias.add register name r.entries) n place
    rw [Alias.standsAt_add, ← consistent.placed]
    by_cases same : n = name
    · subst same
      have unplaced : r.index.lookup n ≠ some place := fun indexed =>
        fresh (Alias.exists_standsAt_iff.mp ⟨place, (consistent.placed n place).mp indexed⟩)
      simp [unplaced]
    · rw [AList.lookup_insert_ne same]
      simp [same]

end Consistent

/-- The index is in step with the table, and the table is that of a draft. -/
def InStep (r : Roster) (d : Draft) : Prop :=
  r.Consistent ∧ r.draft = d

namespace Consistent

variable {r : Roster}

theorem follows_update (consistent : r.Consistent) (change : Draft → Draft)
    (kept : (change r.draft).usage.aliases = r.entries) :
    Follows InStep r (.ok (change r.draft)) ((update change).run r) := by
  have still : Consistent { r with draft := change r.draft } := by
    refine ⟨?_, ?_⟩ <;> rw [entries, kept]
    · exact consistent.distinct
    · exact consistent.placed
  exact .made ⟨still, rfl⟩

theorem follows_assign (consistent : r.Consistent) (role : PointerRole) (register : Register) :
    Follows InStep r (r.draft.assign role register) ((assign role register).run r) := by
  change Follows InStep r _ ((match r.draft.pointer? role with
    | some bound => _
    | none => _ : Run Roster Unit).run r)
  unfold Draft.assign
  cases r.draft.pointer? role with
  | some bound => exact .refused _
  | none =>
    exact consistent.follows_update (fun d =>
      { d with pointer? := fun q => if q = role then some register else d.pointer? q }) rfl

theorem follows_nameRegister (consistent : r.Consistent) (register : Register) (name : String) :
    Follows InStep r (r.draft.nameRegister register name) ((nameRegister register name).run r) := by
  rw [run_nameRegister, consistent.register?_eq]
  unfold Draft.nameRegister
  change Follows InStep r (match Alias.register? r.entries name with
    | some holder => _
    | none => _) _
  cases free : Alias.register? r.entries name with
  | some holder => exact .refused _
  | none =>
    have fresh := consistent.distinct.register?_eq_none_iff.mp free
    exact .made ⟨consistent.named fresh register, rfl⟩

/-- A roster answers each call like the draft, and nothing has to take back what a failed call has
written. -/
theorem follows (consistent : r.Consistent) (call : Call) :
    Follows InStep r (r.draft.perform call) ((carryOut call).run r) := by
  cases call with
  | pointer role register => exact consistent.follows_assign role register
  | name register name => exact consistent.follows_nameRegister register name
  | callerSaved registers => exact consistent.follows_update (·.addCallerSaved registers) rfl
  | calleeSaved registers => exact consistent.follows_update (·.addCalleeSaved registers) rfl
  | arguments registers => exact consistent.follows_update (·.addArguments registers) rfl
  | results registers => exact consistent.follows_update (·.addResults registers) rfl
  | stack alignment transient =>
    exact consistent.follows_update (·.alignStack alignment transient) rfl
  | file file alignment => exact consistent.follows_update (·.alignFile file alignment) rfl

/-- A name can be given exactly if it is not in the table. -/
theorem answer_name_eq_ok_iff (consistent : r.Consistent) {register : Register} {name : String} :
    r.answer (.name register name) = .ok () ↔ name ∉ Alias.allNames r.entries := by
  change ((nameRegister register name).run r).1 = .ok () ↔ _
  rw [run_nameRegister, consistent.register?_eq, ← consistent.distinct.register?_eq_none_iff]
  cases Alias.register? r.entries name <;> simp [Draft.refuse]

end Consistent

/-- The roster and the draft of the same calls. -/
theorem inStep_carriedOut (name : Name) (calls : List Call) :
    (carriedOut name calls).InStep (.drafted name calls) := by
  refine Follows.foldl ?_ ⟨Consistent.empty name, rfl⟩ calls
  rintro r d ⟨consistent, rfl⟩ call
  exact consistent.follows call

end Roster

namespace Draft

/-- Only a call that gives a name changes which names a register has. -/
theorem gives_perform {d after : Draft} {call : Call} (made : d.perform call = .ok after)
    {q : Register} {n : String} :
    Alias.Gives after.usage.aliases q n ↔
      Alias.Gives d.usage.aliases q n ∨ ∃ s, s.isSame q = true ∧ call = .name s n := by
  cases call with
  | name register name =>
    obtain ⟨_, rfl⟩ := nameRegister_eq_ok made
    rw [Alias.gives_add]
    simp [and_comm]
  | pointer role register =>
    obtain ⟨_, rfl⟩ := assign_eq_ok made
    simp
  | callerSaved _ | calleeSaved _ | arguments _ | results _ | stack _ _ | file _ _ =>
    cases made
    simp [addCallerSaved, addCalleeSaved, addArguments, addResults, alignStack, alignFile]

theorem gives_drafted {name : Name} {calls : List Call} {q : Register} {n : String} :
    Alias.Gives (drafted name calls).usage.aliases q n ↔
      ∃ s, s.isSame q = true ∧ .name s n ∈ accepted perform (empty name) calls := by
  have none : ¬Alias.Gives (empty name).usage.aliases q n := by
    rintro ⟨entry, member, _⟩
    cases member
  have added := @attempts_iff _ _ perform (fun d => Alias.Gives d.usage.aliases q n)
    (fun call => ∃ s, s.isSame q = true ∧ call = .name s n) fun _ _ _ made => gives_perform made
  rw [drafted, added, or_iff_right none]
  grind only

theorem mem_allNames_drafted {name : Name} {calls : List Call} {n : String} :
    n ∈ Alias.allNames (drafted name calls).usage.aliases ↔
      ∃ q, .name q n ∈ accepted perform (empty name) calls := by
  rw [Alias.mem_allNames_iff_gives]
  simp only [gives_drafted]
  constructor
  · rintro ⟨_, s, _, given⟩
    exact ⟨s, given⟩
  · rintro ⟨q, given⟩
    exact ⟨q, q, q.isSame_refl, given⟩

end Draft

/-- Over every sequence of calls the table and its index stay in step, and a call that is refused
changes nothing. A name is refused exactly if it was given before. In a finished convention the
names are those that were given, each in one place, and a register has a name exactly if that name
leads to the same element. -/
theorem names_in_step (name : Name) (calls : List Call) :
    let r := Roster.carriedOut name calls
    let d := Draft.drafted name calls
    let given := accepted Draft.perform (.empty name) calls
    r.Consistent ∧ r.draft = d ∧
      (∀ call, r.answer call = (d.perform call).map fun _ => ()) ∧
      (∀ call e, r.answer call = .error e → r.after call = r) ∧
      (∀ q n, r.answer (.name q n) = .ok () ↔ ∀ s, .name s n ∉ given) ∧
      ∀ c, d.finish = .ok c →
        Alias.Distinct c.usage.aliases ∧
        (∀ n, n ∈ Alias.allNames c.usage.aliases ↔ ∃ q, .name q n ∈ given) ∧
        (∀ n, r.register? n = c.register? n) ∧
        (∀ q n, n ∈ c.namesOf q ↔ ∃ s, c.register? n = some s ∧ s.isSame q = true) ∧
        ∀ q n, .name q n ∈ given →
          n ∈ c.namesOf q ∧ ∃ s, c.register? n = some s ∧ s.isSame q = true := by
  intro r d given
  obtain ⟨consistent, drafted⟩ : r.Consistent ∧ r.draft = d := Roster.inStep_carriedOut name calls
  have entries : r.entries = d.usage.aliases := congrArg (·.usage.aliases) drafted
  have follows (call : Call) := consistent.follows call
  rw [drafted] at follows
  have distinct : Alias.Distinct d.usage.aliases := entries ▸ consistent.distinct
  refine ⟨consistent, drafted, fun call => (follows call).fst_eq,
    fun call e => (follows call).snd_of_error, fun q n => ?_, fun c finished => ?_⟩
  · rw [consistent.answer_name_eq_ok_iff, entries, Draft.mem_allNames_drafted, not_exists]
  · obtain ⟨_, usage⟩ := Draft.finish_eq_ok finished
    have listed (q : Register) (n : String) :
        n ∈ c.namesOf q ↔ ∃ s, c.register? n = some s ∧ s.isSame q = true := by
      unfold namesOf register?
      rw [usage]
      exact distinct.mem_namesOf_iff_register?
    refine ⟨usage ▸ distinct, fun n => ?_, fun n => ?_, listed, fun q n accepted => ?_⟩
    · rw [usage, Draft.mem_allNames_drafted]
    · rw [consistent.register?_eq, entries, register?, usage]
    · have named : n ∈ c.namesOf q := by
        unfold namesOf
        rw [usage, distinct.mem_namesOf_iff]
        exact Draft.gives_drafted.mpr ⟨q, q.isSame_refl, accepted⟩
      exact ⟨named, (listed q n).mp named⟩

/-- The registers 1 and 2 of a file, the first also with an alignment. -/
def exampleRegisters : Except Error (Register × Register × Register) := do
  let file ← Tensor.registerFile (.ofParts ["X"]) (.bits 5) (.bits 32)
  let link ← Register.make ⟨0, file⟩ 1 .none
  let aligned ← Register.make ⟨0, file⟩ 1 .word
  let stack ← Register.make ⟨0, file⟩ 2 .none
  return (link, aligned, stack)

/-- Register 1 gets two names, and register 2 cannot have one of them. -/
def namingCalls (link aligned stack : Register) : List Call :=
  [.pointer .returnAddress link, .pointer .returnAddress stack, .name link "ra", .name stack "ra",
    .name aligned "lr", .pointer .stackPointer stack, .pointer .framePointer stack,
    .pointer .globalPointer stack]

theorem names_in_step_naming :
    ∃ link aligned stack c r e, exampleRegisters = .ok (link, aligned, stack) ∧
      r = Roster.carriedOut (.ofParts ["C"]) (namingCalls link aligned stack) ∧
      r.draft.finish = .ok c ∧ c.namesOf aligned = ["ra", "lr"] ∧
      Alias.Distinct c.usage.aliases ∧
      (∃ s, c.register? "lr" = some s ∧ s.isSame aligned = true ∧ s.alignment = .none) ∧
      r.answer (.name stack "lr") = .error e ∧ r.after (.name stack "lr") = r := by
  obtain ⟨link, aligned, stack, c, e, made, finished, names, given, alignment, failed⟩ :
      ∃ link aligned stack c e, exampleRegisters = .ok (link, aligned, stack) ∧
        (Draft.drafted (.ofParts ["C"]) (namingCalls link aligned stack)).finish = .ok c ∧
        c.namesOf aligned = ["ra", "lr"] ∧
        .name aligned "lr" ∈ accepted Draft.perform (.empty (.ofParts ["C"]))
          (namingCalls link aligned stack) ∧
        (c.register? "lr").map (·.alignment) = some .none ∧
        (Roster.carriedOut (.ofParts ["C"]) (namingCalls link aligned stack)).answer
          (.name stack "lr") = .error e :=
    ⟨_, _, _, _, _, rfl, rfl, rfl, .tail _ (.tail _ (.head _)), rfl, rfl⟩
  obtain ⟨_, drafted, _, refused, _, conventions⟩ :=
    names_in_step (.ofParts ["C"]) (namingCalls link aligned stack)
  obtain ⟨distinct, _, _, _, bound⟩ := conventions c finished
  obtain ⟨_, s, found, same⟩ := bound aligned "lr" given
  rw [found] at alignment
  refine ⟨link, aligned, stack, c, _, e, made, rfl, ?_, names, distinct,
    ⟨s, found, same, Option.some.inj alignment⟩, failed, refused _ e failed⟩
  rw [drafted, finished]

end Convention

end MachineDescription
