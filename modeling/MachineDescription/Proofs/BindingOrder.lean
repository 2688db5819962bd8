import MachineDescription.Proofs.EncodingPattern

namespace MachineDescription.Encoding

variable {e e' d : Encoding} {label : String} {v word : Value}

/-- A word of the format from which every constant is read. -/
def ReadFrom (e : Encoding) (word : Value) : Prop :=
  word.width = e.format.item.width ∧ ∀ b ∈ e.bindings, b.field.extract word = .ok b.value

/-- A binding of a field without a constant that agrees with all that are bound. -/
structure Admits (e : Encoding) (b : Binding) : Prop where
  field : e.format.item.field? b.label = some b.field
  free : e.constant? b.label = none
  agrees : ∀ c ∈ e.bindings, c.Agrees b

/-- Bind constants one after another. -/
def bindAll (e : Encoding) (constants : List (String × Value)) : Except Error Encoding :=
  constants.foldlM (fun e constant => e.bind constant.1 constant.2) e

theorem firstConflict?_eq_none_iff {b : Binding} :
    e.firstConflict? b.field b.value = none ↔ ∀ c ∈ e.bindings, c.Agrees b := by
  simp only [firstConflict?, List.findSome?_eq_none_iff, Option.map_eq_none_iff,
    conflictingBit?_eq_none_iff]
  rfl

theorem constant?_eq_none_iff : e.constant? label = none ↔ e.binding? label = none :=
  Option.map_eq_none_iff

/-- Binding adds a binding that the encoding admits, or fails because it admits none. -/
theorem bind_cases (e : Encoding) (label : String) (v : Value) :
    (∃ b e', b.label = label ∧ b.value = v ∧ e.Admits b ∧ e.bind label v = .ok e' ∧
      e'.format = e.format ∧ e'.bindings = e.bindings ++ [b]) ∨
    (∀ b, b.label = label → b.value = v → ¬e.Admits b) ∧ ∃ err, e.bind label v = .error err := by
  unfold bind
  split
  · rename_i absent
    refine Or.inr ⟨?_, _, rfl⟩
    rintro b rfl rfl admits
    have field := admits.field
    rw [Format.field?, absent] at field
    cases field
  · rename_i m found
    have field : e.format.item.field? label = some m.item := by
      rw [Format.field?, found]
      rfl
    split
    · rename_i c bound
      refine Or.inr ⟨?_, _, rfl⟩
      rintro b rfl rfl admits
      have free := constant?_eq_none_iff.mp admits.free
      rw [bound] at free
      cases free
    · rename_i free
      split
      · rename_i typed
        split
        · rename_i c bit clash
          refine Or.inr ⟨?_, _, rfl⟩
          rintro b rfl rfl admits
          have same : b.field = m.item := Option.some.inj (admits.field.symm.trans field)
          rw [← same, firstConflict?_eq_none_iff.mpr admits.agrees] at clash
          cases clash
        · rename_i clear
          have agrees := (firstConflict?_eq_none_iff (b := ⟨label, m.item, v, typed⟩)).mp clear
          exact Or.inl ⟨⟨label, m.item, v, typed⟩, _, rfl, rfl,
            ⟨field, constant?_eq_none_iff.mpr free, agrees⟩, rfl, rfl, rfl⟩
      · rename_i untyped
        refine Or.inr ⟨?_, _, rfl⟩
        rintro b rfl rfl admits
        have same : b.field = m.item := Option.some.inj (admits.field.symm.trans field)
        exact untyped (same ▸ b.ty_eq)

theorem exists_admitted_of_bind (bound : e.bind label v = .ok e') :
    ∃ b, b.label = label ∧ b.value = v ∧ e.Admits b ∧ e'.format = e.format ∧
      e'.bindings = e.bindings ++ [b] := by
  rcases bind_cases e label v with ⟨b, made, rfl, rfl, admits, same, added⟩ | ⟨_, err, failed⟩
  · cases bound.symm.trans same
    exact ⟨b, rfl, rfl, admits, added⟩
  · cases bound.symm.trans failed

theorem Admits.exists_bind {b : Binding} (admits : e.Admits b) :
    ∃ e', e.bind b.label b.value = .ok e' := by
  rcases bind_cases e b.label b.value with ⟨_, e', _, _, _, bound, _⟩ | ⟨none, _⟩
  · exact ⟨e', bound⟩
  · exact absurd admits (none b rfl rfl)

/-- A field of a format lies within its words, so reading it never fails. -/
theorem msb_lt_width_of_field? {format : Format} {f : Field}
    (field : format.field? label = some f) : f.slice.msb < format.width := by
  obtain ⟨m, found, rfl⟩ := Option.map_eq_some_iff.mp field
  exact format.within m (Labelled.find?_eq_some found).1

/-- Whatever constants were bound, the pattern without its open bits is a word for all of them. -/
theorem readFrom_pattern (e : Encoding) : e.ReadFrom e.pattern.value := by
  have width : e.pattern.value.width = e.format.item.width := e.width_pattern
  exact ⟨width, (accepts_iff_extract width).mp e.pattern.accepts_value⟩

/-- A constant that is read from the same word as those that are bound agrees with them. -/
theorem ReadFrom.agrees {b : Binding} (read : e.ReadFrom word)
    (inside : b.field.slice.msb < word.width) (also : b.field.extract word = .ok b.value) :
    ∀ c ∈ e.bindings, c.Agrees b := by
  intro c bound index bit other inC inB
  have insideC : c.field.slice.msb < word.width := by
    rw [read.1]
    exact msb_lt_width bound
  have bitC := ((Field.extract_eq_ok_iff insideC).mp (read.2 c bound)).2 index bit inC
  have bitB := ((Field.extract_eq_ok_iff inside).mp also).2 index other inB
  exact bitC.symm.trans bitB

/-- After a binding, a word has all constants exactly when it had them before and has the new one.
-/
theorem readFrom_of_bind (bound : e.bind label v = .ok e') :
    e'.ReadFrom word ↔
      e.ReadFrom word ∧ ∃ f, e.format.item.field? label = some f ∧ f.extract word = .ok v := by
  obtain ⟨b, rfl, rfl, admits, format, added⟩ := exists_admitted_of_bind bound
  rw [ReadFrom, ReadFrom, format, added, List.forall_mem_append, List.forall_mem_singleton,
    ← and_assoc, admits.field]
  simp only [Option.some.injEq, exists_eq_left']

theorem constant?_of_bind (bound : e.bind label v = .ok e') {other : String} :
    e'.constant? other = none ↔ e.constant? other = none ∧ other ≠ label := by
  obtain ⟨b, rfl, rfl, _, _, added⟩ := exists_admitted_of_bind bound
  rw [constant?_eq_none_iff, constant?_eq_none_iff, binding?, binding?, added, List.find?_append,
    Option.or_eq_none_iff]
  refine and_congr_right fun _ => ?_
  rw [List.find?_eq_none, List.forall_mem_singleton, beq_iff_eq]
  exact not_congr eq_comm

/-- A constant can be bound exactly when its field has none yet and there is a word from which it is
read together with all that are bound. -/
theorem exists_bind_iff :
    (∃ e', e.bind label v = .ok e') ↔
      e.constant? label = none ∧
        ∃ word, e.ReadFrom word ∧
          ∃ f, e.format.item.field? label = some f ∧ f.extract word = .ok v := by
  constructor
  · rintro ⟨e', bound⟩
    obtain ⟨b, rfl, rfl, admits, _⟩ := exists_admitted_of_bind bound
    exact ⟨admits.free, e'.pattern.value, (readFrom_of_bind bound).mp e'.readFrom_pattern⟩
  · rintro ⟨free, word, read, f, field, also⟩
    have inside : f.slice.msb < word.width := by
      rw [read.1]
      exact msb_lt_width_of_field? field
    have typed : v.ty = f.ty := ((Field.extract_eq_ok_iff inside).mp also).1
    let b : Binding := ⟨label, f, v, typed⟩
    have admits : e.Admits b := ⟨field, free, read.agrees inside also⟩
    exact admits.exists_bind

/-- A sequence of bindings succeeds exactly when its labels are different and without a constant and
there is a word from which all of its constants are read together with those that are bound. -/
theorem exists_bindAll_iff {constants : List (String × Value)} :
    (∃ e', e.bindAll constants = .ok e') ↔
      (constants.map Prod.fst).Nodup ∧ (∀ c ∈ constants, e.constant? c.1 = none) ∧
        ∃ word, e.ReadFrom word ∧ ∀ c ∈ constants,
          ∃ f, e.format.item.field? c.1 = some f ∧ f.extract word = .ok c.2 := by
  induction constants generalizing e with
  | nil =>
    refine iff_of_true ⟨e, rfl⟩ ⟨List.nodup_nil, fun _ member => (nomatch member), ?_⟩
    exact ⟨e.pattern.value, e.readFrom_pattern, fun _ member => (nomatch member)⟩
  | cons constant rest ih =>
    -- the word of the whole sequence is the word of the rest after the first binding
    obtain ⟨label, v⟩ := constant
    simp only [List.map_cons, List.nodup_cons, List.forall_mem_cons]
    constructor
    · rintro ⟨e', run⟩
      obtain ⟨next, bound, later⟩ := exists_ok_of_bind run
      obtain ⟨distinct, free, word, read, rest⟩ := ih.mp ⟨e', later⟩
      obtain ⟨before, now⟩ := (readFrom_of_bind bound).mp read
      rw [format_of_bind bound] at rest
      refine ⟨⟨?_, distinct⟩, ⟨(exists_bind_iff.mp ⟨next, bound⟩).1, ?_⟩, word, before, now, rest⟩
      · intro again
        obtain ⟨c, member, same⟩ := List.mem_map.mp again
        exact ((constant?_of_bind bound).mp (free c member)).2 same
      · exact fun c member => ((constant?_of_bind bound).mp (free c member)).1
    · rintro ⟨⟨fresh, distinct⟩, ⟨free, others⟩, word, read, now, later⟩
      obtain ⟨next, bound⟩ := exists_bind_iff.mpr ⟨free, word, read, now⟩
      have stillFree : ∀ c ∈ rest, next.constant? c.1 = none := by
        intro c member
        refine (constant?_of_bind bound).mpr ⟨others c member, fun same => fresh ?_⟩
        exact same ▸ List.mem_map_of_mem member
      rw [← format_of_bind bound] at later
      obtain ⟨e', run⟩ := ih.mpr
        ⟨distinct, stillFree, word, (readFrom_of_bind bound).mpr ⟨read, now⟩, later⟩
      refine ⟨e', ?_⟩
      rw [bindAll, List.foldlM_cons, bound]
      exact run

theorem format_of_bindAll {constants : List (String × Value)}
    (run : e.bindAll constants = .ok e') : e'.format = e.format := by
  induction constants generalizing e with
  | nil =>
    cases run
    rfl
  | cons constant rest ih =>
    obtain ⟨next, bound, later⟩ := exists_ok_of_bind run
    exact (ih later).trans (format_of_bind bound)

/-- The bits of the constants grow by those that the new constant puts into its field. -/
theorem mem_constantBits_of_bind (bound : e.bind label v = .ok e') {index : Nat} {bit : Bool} :
    (index, bit) ∈ e'.constantBits ↔
      (index, bit) ∈ e.constantBits ∨
        ∃ f, e.format.item.field? label = some f ∧ (index, bit) ∈ f.placed v := by
  obtain ⟨b, rfl, rfl, admits, _, added⟩ := exists_admitted_of_bind bound
  rw [admits.field, constantBits, added, List.flatMap_append, List.mem_append,
    List.flatMap_singleton]
  simp only [Option.some.injEq, exists_eq_left']
  rfl

/-- Each constant puts its bits into the word beside those that were there. -/
theorem mem_constantBits_of_bindAll {constants : List (String × Value)}
    (run : e.bindAll constants = .ok e') {index : Nat} {bit : Bool} :
    (index, bit) ∈ e'.constantBits ↔
      (index, bit) ∈ e.constantBits ∨ ∃ c ∈ constants,
        ∃ f, e.format.item.field? c.1 = some f ∧ (index, bit) ∈ f.placed c.2 := by
  induction constants generalizing e with
  | nil =>
    cases run
    simp
  | cons constant rest ih =>
    obtain ⟨next, bound, later⟩ := exists_ok_of_bind run
    rw [ih later, mem_constantBits_of_bind bound, format_of_bind bound, or_assoc]
    simp only [List.mem_cons, exists_eq_or_imp]

/-- The pattern is known from the bits of the constants. -/
theorem pattern_congr (format : e.format = d.format)
    (same : ∀ index bit, (index, bit) ∈ e.constantBits ↔ (index, bit) ∈ d.constantBits) :
    e.pattern = d.pattern := by
  have written : ∀ index,
      Bits.written? e.constantBits index = Bits.written? d.constantBits index := by
    intro index
    refine Option.ext fun bit => ?_
    rw [written?_constantBits, written?_constantBits, same]
  refine Pattern.ext ?_ ?_ ?_
  · rw [width_pattern, width_pattern, format]
  · refine Nat.eq_of_testBit_eq fun index => ?_
    have mask := (e.testBit_pattern index).1
    rw [written, ← (d.testBit_pattern index).1] at mask
    exact mask
  · refine Nat.eq_of_testBit_eq fun index => ?_
    rw [(e.testBit_pattern index).2, (d.testBit_pattern index).2, written]

/-- Nothing of what decides over a sequence of bindings depends on the order, and neither do the
bits that the pattern fixes. -/
theorem bindAll_perm {constants reordered : List (String × Value)}
    (run : e.bindAll constants = .ok e') (perm : constants.Perm reordered) :
    ∃ d, e.bindAll reordered = .ok d ∧ d.pattern = e'.pattern := by
  obtain ⟨distinct, free, word, read, each⟩ := exists_bindAll_iff.mp ⟨e', run⟩
  obtain ⟨d, other⟩ := exists_bindAll_iff.mpr
    ⟨(perm.map Prod.fst).nodup_iff.mp distinct, fun c member => free c (perm.mem_iff.mpr member),
      word, read, fun c member => each c (perm.mem_iff.mpr member)⟩
  refine ⟨d, other, pattern_congr ?_ fun index bit => ?_⟩
  · rw [format_of_bindAll other, format_of_bindAll run]
  · rw [mem_constantBits_of_bindAll other, mem_constantBits_of_bindAll run]
    simp only [perm.mem_iff]

theorem built_of_bind {name : Name} {format : Declared Format} {assignments : List Assignment}
    (bound : (built name format assignments).bind label v = .ok e) :
    built name format (assignments ++ [.value label v]) = e := by
  rw [built, attempts, List.foldl_append]
  change ((built name format assignments).bind label v).toOption.getD _ = e
  rw [bound]
  rfl

end MachineDescription.Encoding
