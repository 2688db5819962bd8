import MachineDescription.Proofs.BindingOrder
import MachineDescription.Proofs.Evaluation

namespace MachineDescription

/-- A run that leaves the state as it is, whether it fails or not. -/
def Run.Silent {σ α : Type} (x : Run σ α) : Prop :=
  ∀ s, (x.run s).2 = s

/-- If what begins with a silent run succeeds, it does what comes after that run. -/
theorem Run.Silent.run_bind {σ α β : Type} {x : Run σ α} {next : α → Run σ β} {s : σ} {b : β}
    (silent : x.Silent) (ok : ((x >>= next).run s).1 = .ok b) :
    ∃ a, (x >>= next).run s = (next a).run s := by
  have same := silent s
  rw [Run.run_bind] at ok ⊢
  cases ran : x.run s with
  | mk result t =>
    rw [ran] at ok same
    cases same
    cases result with
    | error e => cases ok
    | ok a => exact ⟨a, rfl⟩

namespace Encoding

/-- An encoding in the making: constants, each with the place of its field in the format. Each
binding goes through its checks one after the other, and nothing takes back what it has written
before it fails. -/
structure Ledger (format : Declared Format) where
  name : Name
  bindings : List (Fin format.item.fields.length × Value)

namespace Ledger

variable {format : Declared Format} {l : Ledger format} {e : Encoding} {label : String} {v : Value}

def empty (name : Name) (format : Declared Format) : Ledger format :=
  ⟨name, []⟩

/-- The field in a place of the format, with the label it was declared under. -/
def memberAt (place : Fin format.item.fields.length) : Labelled Field :=
  format.item.fields.get place

def place? (format : Declared Format) (label : String) : Option (Fin format.item.fields.length) :=
  format.item.fields.findFinIdx? (·.label == label)

def refuse (fault : EncodingFault) : Run (Ledger format) Unit := do
  let l ← get
  throw (.about l.name (.encoding fault))

def checkUnbound (label : String) (place : Fin format.item.fields.length) (v : Value) :
    Run (Ledger format) Unit := do
  let l ← get
  match l.bindings.find? (·.1 == place) with
  | some bound => refuse (.boundTwice label bound.2 v)
  | none => pure ()

def checkType (label : String) (field : Field) (v : Value) : Run (Ledger format) Unit :=
  if v.ty = field.ty then pure () else refuse (.typeDiffers label field.ty v.ty)

/-- Compare a constant for a field with one that is bound. -/
def checkAgainst (label : String) (field : Field) (v : Value)
    (entry : Fin format.item.fields.length × Value) : Run (Ledger format) Unit :=
  match conflictingBit? ((memberAt entry.1).item.placed entry.2) (field.placed v) with
  | some bit => refuse (.bitConflict label bit (memberAt entry.1).item.name.simple entry.2 v)
  | none => pure ()

def bind (label : String) (v : Value) : Run (Ledger format) Unit :=
  match place? format label with
  | none => refuse (.noField format.item.name label)
  | some place => do
    checkUnbound label place v
    checkType label (memberAt place).item v
    let l ← get
    l.bindings.forM (checkAgainst label (memberAt place).item v)
    modify fun l => { l with bindings := l.bindings ++ [(place, v)] }

def bindInteger (label : String) (n : Int) : Run (Ledger format) Unit := do
  match format.item.field? label with
  | none => refuse (.noField format.item.name label)
  | some field =>
    let l ← get
    match Value.ofInteger n field.ty with
    | .ok v => bind label v
    | .error err => throw (err.withDefinition l.name)

def assign : Assignment → Run (Ledger format) Unit
  | .value label v => bind label v
  | .integer label n => bindInteger label n

/-- What a binding yields. -/
def answer (l : Ledger format) (assignment : Assignment) : Except Error Unit :=
  ((assign assignment).run l).1

/-- What a binding leaves behind, also if it fails. -/
def after (l : Ledger format) (assignment : Assignment) : Ledger format :=
  ((assign assignment).run l).2

/-- The ledger of a sequence of bindings. -/
def built (name : Name) (format : Declared Format) (assignments : List Assignment) :
    Ledger format :=
  assignments.foldl after (empty name format)

/-- The ledger has the constants of an encoding, for the same fields in the same order. -/
structure Shows (l : Ledger format) (e : Encoding) : Prop where
  name : e.name = l.name
  format : e.format = format
  bindings : e.bindings.map (fun b => (b.label, b.field, b.value)) =
    l.bindings.map fun entry => ((memberAt entry.1).label, (memberAt entry.1).item, entry.2)

theorem find?_eq_place? (format : Declared Format) (label : String) :
    Labelled.find? format.item.fields label = (place? format label).map memberAt :=
  List.find?_eq_map_findFinIdx?_getElem

/-- Labels are distinct, so a label stands in one place only. -/
theorem label_memberAt_iff {place other : Fin format.item.fields.length}
    (found : place? format label = some place) :
    (memberAt other).label = label ↔ other = place := by
  have labels : (Labelled.labels format.item.fields).Nodup :=
    (List.nodup_append.mp format.item.distinct).1
  have here : (memberAt place).label = label :=
    beq_iff_eq.mp (List.findFinIdx?_eq_some_iff.mp found).1
  constructor
  · intro there
    have same : memberAt other = memberAt place :=
      List.inj_on_of_nodup_map labels (List.get_mem _ other) (List.get_mem _ place)
        (there.trans here.symm)
    exact (List.Nodup.of_map _ labels).get_inj_iff.mp same
  · rintro rfl
    exact here

/-- The first bound constant that a constant contradicts, and the bit. -/
def conflict? (bindings : List (Fin format.item.fields.length × Value)) (field : Field)
    (v : Value) : Option ((Fin format.item.fields.length × Value) × Nat) :=
  bindings.findSome? fun entry =>
    (conflictingBit? ((memberAt entry.1).item.placed entry.2) (field.placed v)).map (entry, ·)

theorem run_checkUnbound (l : Ledger format) (label : String)
    (place : Fin format.item.fields.length) (v : Value) :
    (checkUnbound label place v).run l =
      ((l.bindings.find? (·.1 == place)).elim (.ok ()) fun bound =>
        .error (.about l.name (.encoding (.boundTwice label bound.2 v))), l) := by
  change (match l.bindings.find? (·.1 == place) with
    | some bound => _
    | none => _ : Run (Ledger format) Unit).run l = _
  cases l.bindings.find? (·.1 == place) <;> rfl

/-- The loop of comparisons stops at the first conflict and writes nothing. -/
theorem run_checkAll (l : Ledger format) (label : String) (field : Field) (v : Value)
    (bindings : List (Fin format.item.fields.length × Value)) :
    (bindings.forM (checkAgainst label field v)).run l =
      ((conflict? bindings field v).elim (.ok ()) fun clash => .error (.about l.name (.encoding
        (.bitConflict label clash.2 (memberAt clash.1.1).item.name.simple clash.1.2 v))), l) := by
  induction bindings with
  | nil => rfl
  | cons entry rest ih =>
    rw [List.forM_eq_forM, List.forM_cons, Run.run_bind, conflict?, List.findSome?_cons]
    unfold checkAgainst
    cases conflictingBit? ((memberAt entry.1).item.placed entry.2) (field.placed v) with
    | some bit => rfl
    | none => exact ih

/-- The entry is written last, so a binding that succeeds has written just this. -/
theorem after_bind (ok : ((bind label v).run l).1 = .ok ()) :
    ∃ place, place? format label = some place ∧
      ((bind label v).run l).2 = { l with bindings := l.bindings ++ [(place, v)] } := by
  unfold bind at ok ⊢
  cases here : place? format label with
  | none =>
    rw [here] at ok
    cases ok
  | some place =>
    rw [here] at ok
    refine ⟨place, rfl, ?_⟩
    have unbound : (checkUnbound label place v).Silent := fun l => by rw [run_checkUnbound]
    have typed : (checkType label (memberAt place).item v : Run (Ledger format) Unit).Silent := by
      intro l
      unfold checkType
      split <;> rfl
    have agreeing : (l.bindings.forM (checkAgainst label (memberAt place).item v)).Silent :=
      fun l => by rw [run_checkAll]
    obtain ⟨_, first⟩ := unbound.run_bind ok
    rw [first] at ok ⊢
    obtain ⟨_, second⟩ := typed.run_bind ok
    rw [second] at ok ⊢
    obtain ⟨_, third⟩ := agreeing.run_bind ok
    exact congrArg Prod.snd third

namespace Shows

theorem empty (name : Name) (format : Declared Format) :
    (empty name format).Shows (.empty name format) :=
  ⟨rfl, rfl, rfl⟩

/-- The constant of a field, found by label in the encoding and by place in the ledger. -/
theorem binding?_eq (shows : l.Shows e) {place : Fin format.item.fields.length}
    (found : place? format label = some place) :
    (e.binding? label).map (·.value) = (l.bindings.find? (·.1 == place)).map (·.2) := by
  have samePlace : (fun entry : Fin format.item.fields.length × Value =>
      (memberAt entry.1).label == label) = (·.1 == place) := by
    funext entry
    rw [Bool.eq_iff_iff, beq_iff_eq, beq_iff_eq, label_memberAt_iff found]
  have both := congrArg (fun entries => (entries.find? (·.1 == label)).map (·.2.2)) shows.bindings
  simp only [List.find?_map, Option.map_map] at both
  rw [← samePlace]
  exact both

/-- The first conflict, found by label in the encoding and by place in the ledger. -/
theorem conflict?_eq (shows : l.Shows e) (field : Field) (v : Value) :
    (e.firstConflict? field v).map (fun clash => (clash.1.field, clash.1.value, clash.2)) =
      (conflict? l.bindings field v).map fun clash =>
        ((memberAt clash.1.1).item, clash.1.2, clash.2) := by
  have both := congrArg (List.findSome? fun entry : String × Field × Value =>
    (conflictingBit? (entry.2.1.placed entry.2.2) (field.placed v)).map
      (entry.2.1, entry.2.2, ·)) shows.bindings
  simp only [List.findSome?_map] at both
  simpa [firstConflict?, conflict?, List.map_findSome?, Function.comp_def, Binding.placed]
    using both

/-- Encoding and ledger make the same checks in the same order, the one by label and the other by
place, so the first that fails is the same. -/
theorem follows_bind (shows : l.Shows e) (label : String) (v : Value) :
    Follows Shows l (e.bind label v) ((bind label v).run l) := by
  obtain ⟨name, rfl, bindings⟩ := shows
  have shows : l.Shows e := ⟨name, rfl, bindings⟩
  unfold Encoding.bind
  split
  · rename_i absent
    have nowhere : place? e.format label = none := by
      rwa [find?_eq_place?, Option.map_eq_none_iff] at absent
    rw [bind, nowhere, Encoding.refuse, name]
    exact .refused _
  · rename_i m found
    obtain ⟨place, here, rfl⟩ :
        ∃ place, place? e.format label = some place ∧ memberAt place = m := by
      rwa [find?_eq_place?, Option.map_eq_some_iff] at found
    have constant := shows.binding?_eq here
    rw [bind, here]
    dsimp only
    rw [Run.run_bind, run_checkUnbound]
    split
    · rename_i b bound
      rw [bound, Option.map_some, eq_comm, Option.map_eq_some_iff] at constant
      obtain ⟨entry, held, same⟩ := constant
      rw [held, Encoding.refuse, name, ← same]
      exact .refused _
    · rename_i free
      rw [free, Option.map_none, eq_comm, Option.map_eq_none_iff] at constant
      rw [constant]
      dsimp only [Option.elim]
      rw [Run.run_bind, checkType]
      split
      · have clash := shows.conflict?_eq (memberAt place).item v
        change Follows Shows l _ ((l.bindings.forM _ >>= fun _ => modify _ :
          Run (Ledger e.format) Unit).run l)
        rw [Run.run_bind, run_checkAll]
        split
        · rename_i c bit conflict
          rw [conflict, Option.map_some, eq_comm, Option.map_eq_some_iff] at clash
          obtain ⟨entry, first, same⟩ := clash
          obtain ⟨field, value, rfl⟩ : (memberAt entry.1.1).item = c.field ∧
              entry.1.2 = c.value ∧ entry.2 = bit := by simpa using same
          rw [first, Encoding.refuse, name, ← field, ← value]
          exact .refused _
        · rename_i clear
          rw [clear, Option.map_none, eq_comm, Option.map_eq_none_iff] at clash
          have named : (memberAt place).label = label := (label_memberAt_iff here).mpr rfl
          rw [clash]
          refine .made ⟨name, rfl, ?_⟩
          simp [bindings, named]
      · rw [Encoding.refuse, name]
        exact .refused _

theorem follows (shows : l.Shows e) (assignment : Assignment) :
    Follows Shows l (e.assign assignment) ((assign assignment).run l) := by
  cases assignment with
  | value label v => exact shows.follows_bind label v
  | integer label n =>
    change Follows Shows l (e.bindInteger label n) ((bindInteger label n).run l)
    unfold Encoding.bindInteger bindInteger
    rw [shows.format]
    cases format.item.field? label with
    | none =>
      rw [Encoding.refuse, shows.name]
      exact .refused _
    | some field =>
      dsimp only
      cases Value.ofInteger n field.ty with
      | ok v => exact shows.follows_bind label v
      | error err =>
        rw [shows.name]
        exact .refused _

end Shows

/-- A ledger and an encoding that are made by the same bindings, failing ones among them, have the
same constants. -/
theorem shows_built (name : Name) (format : Declared Format) (assignments : List Assignment) :
    (built name format assignments).Shows (.built name format assignments) :=
  Follows.foldl (fun _ _ shows => shows.follows) (.empty name format) assignments

end Ledger

/-- After any sequence of bindings, a constant can be bound exactly when the field exists, has no
constant yet and has the type of the value, and there is a word of the format from which the value
is read together with all bound constants. A binding that succeeds adds the constant, and one that
fails leaves the ledger as it was. If bindings succeed one after another, they succeed in every
order and make the same pattern. -/
theorem bind_iff_readable (name : Name) (format : Declared Format)
    (assignments : List Assignment) :
    let l := Ledger.built name format assignments
    let e := built name format assignments
    l.Shows e ∧ (∀ assignment, l.answer assignment = (e.assign assignment).map fun _ => ()) ∧
    (∀ assignment err, l.answer assignment = .error err → l.after assignment = l) ∧
    (∀ label v, l.answer (.value label v) = .ok () ↔
      ∃ f, format.item.field? label = some f ∧ e.constant? label = none ∧ v.ty = f.ty ∧
        ∃ word : Value, word.width = format.item.width ∧
          (∀ b ∈ e.bindings, b.field.extract word = .ok b.value) ∧ f.extract word = .ok v) ∧
    (∀ label v, l.answer (.value label v) = .ok () →
      ∃ place, (Ledger.memberAt place).label = label ∧
        l.after (.value label v) = { l with bindings := l.bindings ++ [(place, v)] }) ∧
    (∀ label v e', e.bind label v = .ok e' →
      built name format (assignments ++ [.value label v]) = e' ∧
        ∃ b, b.label = label ∧ b.value = v ∧ e'.bindings = e.bindings ++ [b]) ∧
    ∀ constants reordered e', e.bindAll constants = .ok e' → constants.Perm reordered →
      ∃ d, e.bindAll reordered = .ok d ∧ d.pattern = e'.pattern := by
  intro l e
  have shows : l.Shows e := Ledger.shows_built name format assignments
  have same : e.format = format := shows.format
  refine ⟨shows, fun assignment => (shows.follows assignment).fst_eq,
    fun assignment err => (shows.follows assignment).snd_of_error, fun label v => ?_,
    fun label v ok => ?_, fun label v e' bound => ?_, fun constants reordered e' => bindAll_perm⟩
  · have answers := (shows.follows (.value label v)).fst_eq_ok_iff
    refine answers.trans (exists_bind_iff.trans ⟨?_, ?_⟩)
    · rintro ⟨free, word, ⟨width, read⟩, f, field, also⟩
      rw [same] at width field
      have inside : f.slice.msb < word.width := by
        rw [width]
        exact msb_lt_width_of_field? field
      exact ⟨f, field, free, ((Field.extract_eq_ok_iff inside).mp also).1, word, width, read, also⟩
    · rintro ⟨f, field, free, _, word, width, read, also⟩
      rw [← same] at width field
      exact ⟨free, word, ⟨width, read⟩, f, field, also⟩
  · obtain ⟨place, found, written⟩ := Ledger.after_bind ok
    exact ⟨place, (Ledger.label_memberAt_iff found).mpr rfl, written⟩
  · obtain ⟨b, label, value, _, _, added⟩ := exists_admitted_of_bind bound
    exact ⟨built_of_bind bound, b, label, value, added⟩

/-- The first field is bound and a constant for the second one, which contradicts it, is refused and
leaves nothing behind. Another constant for it, and one for a third field that shares bits with the
first as well, are then bound in two orders. -/
theorem bind_iff_readable_staggered :
    let l := Ledger.built (.ofParts ["Staggered", "encoding"]) ⟨0, .staggered⟩
      [.integer "a" 0b1111, .integer "b" 0b0000]
    l.bindings.map (fun entry => ((Ledger.memberAt entry.1).label, entry.2)) =
        [("a", .wrap (.bits 4) 0b1111)] ∧
      l.answer (.integer "b" 0b0000) ≠ .ok () ∧ l.after (.integer "b" 0b0000) = l ∧
      ∃ e d,
        (built (.ofParts ["Staggered", "encoding"]) ⟨0, .staggered⟩
            [.integer "a" 0b1111, .integer "b" 0b0000]).bindAll
            [("b", .wrap (.bits 4) 0b1101), ("c", .wrap (.uint 3) 0b011)] = .ok e ∧
          (built (.ofParts ["Staggered", "encoding"]) ⟨0, .staggered⟩
            [.integer "a" 0b1111, .integer "b" 0b0000]).bindAll
            [("c", .wrap (.uint 3) 0b011), ("b", .wrap (.bits 4) 0b1101)] = .ok d ∧
          d.pattern = e.pattern ∧ e.pattern.mask = 0b11111101 ∧ e.pattern.bits = 0b11110100 := by
  obtain ⟨_, _, refused, _, _, _, order⟩ := bind_iff_readable (.ofParts ["Staggered", "encoding"])
    ⟨0, .staggered⟩ [.integer "a" 0b1111, .integer "b" 0b0000]
  obtain ⟨d, run, same⟩ := order _ _ _ rfl
    (.swap ("c", .wrap (.uint 3) 0b011) ("b", .wrap (.bits 4) 0b1101) [])
  exact ⟨rfl, nofun, refused (.integer "b" 0b0000) _ rfl, _, d, rfl, run, same, rfl, rfl⟩

end Encoding

end MachineDescription
