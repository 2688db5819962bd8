import MachineDescription.Proofs.EvaluationErrors
import MachineDescription.Proofs.FieldLens
import MachineDescription.Proofs.MemberNames
import MachineDescription.Proofs.Substitution

namespace MachineDescription

/-- The error is that a field has no value. -/
def Error.IsUnboundField (err : Error) : Prop :=
  ∃ name, err.cause = .expr (.unbound .field name)

namespace Field

variable {f : Field} {word other : Value}

/-- Words with the same bits in a slice hold the same value of the field. -/
theorem extract_congr (inside : f.slice.msb < word.width) (insideToo : f.slice.msb < other.width)
    (agree : ∀ index, f.slice.contains index = true → word.bit index = other.bit index) :
    f.extract word = f.extract other := by
  have same : f.slice.positions.map word.bit = f.slice.positions.map other.bit :=
    List.map_congr_left fun index member => agree index (Slice.mem_positions.mp member)
  rw [extract_eq_ok inside, extract_eq_ok insideToo]
  exact congrArg Except.ok (Value.ext rfl (congrArg Bits.ofList same))

/-- A word that is too narrow is refused as an operand. -/
theorem extract_fails (f : Field) (word : Value) : FailsOnly Error.OfOperands (f.extract word) := by
  by_cases inside : f.slice.msb < word.width
  · rw [extract_eq_ok inside]
    exact .ok _
  · have refused : word.slice f.slice = Value.refuse (.sliceBeyond f.slice word) := if_neg inside
    have fails := Value.slice_fails (v := word) f.slice
    rw [refused] at fails
    rw [extract, refused]
    exact fails

end Field

namespace Function

theorem evaluatePure_eq (f : Function) (bindings : Bindings) :
    f.evaluatePure bindings = f.conclude ((f.body.eval Reader.none bindings).run ()).1 := by
  rw [evaluatePure, run_evaluate]

/-- Neither the definition that is added to an error nor a check of the result is about a field. -/
theorem conclude_fails {f : Function} {outcome : Except Error Value}
    (fails : FailsOnly (¬·.IsUnboundField) outcome) :
    FailsOnly (¬·.IsUnboundField) (f.conclude outcome) := by
  rintro err concluded ⟨name, cause⟩
  cases outcome with
  | error inner =>
    cases concluded
    exact fails inner rfl ⟨name, cause⟩
  | ok v =>
    by_cases same : v.width = f.result.width
    · obtain ⟨result, made, _⟩ := conclude_of_width_eq same
      cases made.symm.trans concluded
    · cases (conclude_of_width_ne same).symm.trans concluded
      cases cause

/-- A function whose fields all have a value does not lack one, whatever else it lacks. -/
theorem evaluatePure_fails {f : Function} {bindings : Bindings}
    (bound : ∀ name ∈ f.body.references .field, bindings.value? .field name.simple ≠ none) :
    FailsOnly (¬·.IsUnboundField) (f.evaluatePure bindings) := by
  have covers : f.body.Covers (¬·.IsUnboundField) Reader.none bindings := by
    constructor
    case operands =>
      rintro _ ⟨fault, rfl, _⟩ ⟨name, cause⟩
      cases cause
    case reads =>
      intro resource address
      refine .throw ?_
      rintro ⟨name, cause⟩
      cases cause
    case names =>
      rintro scope name member unbound ⟨other, cause⟩
      cases cause
      exact bound name member unbound
  rw [evaluatePure_eq]
  exact conclude_fails (covers.eval_fails ())

end Function

namespace FieldAccess

variable {name : Name} {fields : List Field} {decoder encoder : Function}
  {predicate : Option Function} {a : FieldAccess}

/-- A view is made only if its decode function refers to one field, by whatever qualified names. -/
theorem referenced_of_resolveTarget {target : Field}
    (resolved : resolveTarget name fields decoder = .ok target) :
    referenced decoder = [target.name.simple] := by
  unfold resolveTarget at resolved
  split at resolved
  · rename_i label only
    split at resolved
    · rename_i found
      cases resolved
      have same : target.name.simple = label := by simpa using List.find?_some found
      rw [only, same]
    · cases resolved
  · cases resolved

/-- Fields are listed by qualified names and told by their last parts, so every reference, under
whatever qualified name, ends in the name of the target. -/
theorem simple_eq_of_referenced {label : String} (only : referenced decoder = [label]) {name : Name}
    (member : name ∈ decoder.body.references .field) : name.simple = label := by
  obtain ⟨other, listed, same⟩ := Name.exists_mem_distinct member
  have simple : other.simple ∈ referenced decoder :=
    List.mem_eraseDups.mpr (List.mem_map_of_mem listed)
  rw [only, List.mem_singleton] at simple
  rw [← Name.simple_eq_of_parts same, simple]

/-- The bindings under which the decode function of a view works. -/
def bound (a : FieldAccess) (field : Value) : Bindings :=
  Bindings.empty.bind .field a.target.name.simple field

/-- Decoding knows nothing of the word but the value of the target. -/
theorem decode_of_extract {word x : Value} (extracted : a.target.extract word = .ok x) :
    a.decode word = a.decoder.evaluatePure (a.bound x) := by
  rw [decode, extracted]
  rfl

theorem decode_fails (only : ∀ name ∈ a.decoder.body.references .field,
    name.simple = a.target.name.simple) (word : Value) :
    FailsOnly (¬·.IsUnboundField) (a.decode word) := by
  cases extracted : a.target.extract word with
  | error err =>
    obtain ⟨fault, rfl, _⟩ := a.target.extract_fails word err extracted
    rw [decode, extracted]
    rintro _ ⟨⟩ ⟨name, cause⟩
    cases cause
  | ok x =>
    rw [decode_of_extract extracted]
    refine Function.evaluatePure_fails fun name member => ?_
    rw [only name member]
    simp [bound, Bindings.bind]

/-- What the encode function yields has the width of the target, so retagging it does not fail. -/
theorem encode_of_call (width : a.encoder.result.width = a.target.ty.width) {v y : Value}
    (called : a.encoder.call [v] = .ok y) :
    ∃ x, y.retag a.target.ty = .ok x ∧ a.encode v = .ok x := by
  have same : y.width = a.target.ty.width := by
    rw [Value.width, Function.ty_of_call called, width]
  have tagged : y.retag a.target.ty = .ok ⟨a.target.ty, y.pattern, same ▸ y.pattern_lt⟩ :=
    dif_pos same
  refine ⟨_, tagged, ?_⟩
  rw [encode, called]
  exact tagged

theorem ty_of_encode {v x : Value} (encoded : a.encode v = .ok x) : x.ty = a.target.ty := by
  obtain ⟨y, _, tagged⟩ := exists_ok_of_bind encoded
  exact (Value.retag_eq_ok_iff.mp tagged).2.1

/-- A value of the target's type can be written into every word that is wide enough, and the view of
the word does not depend on what the word was before. -/
theorem exists_insert_decode {x word : Value} (type : x.ty = a.target.ty)
    (inside : a.target.slice.msb < word.width) :
    ∃ after, a.target.insert word x = .ok after ∧
      a.decode after = a.decoder.evaluatePure (a.bound x) := by
  have width : x.width = a.target.ty.width := congrArg DataType.width type
  obtain ⟨after, inserted⟩ := Field.exists_insert width inside
  have tagged : x.retag a.target.ty = .ok x := Value.retag_eq_ok_iff.mpr ⟨width, type, rfl⟩
  exact ⟨after, inserted, decode_of_extract (Field.extract_of_insert inserted tagged)⟩

/-- Of a word, a view that could be made sees only the bits of its target, and it never misses the
value of a field. Whatever its encode function yields is retagged to the type of the target and can
be written into every word that is wide enough; the view of that word is what the decode function
makes of the written value. -/
theorem make_confined (made : make name fields decoder encoder predicate = .ok a) :
    (∀ word other : Value, a.target.slice.msb < word.width → a.target.slice.msb < other.width →
      (∀ index, a.target.slice.contains index = true → word.bit index = other.bit index) →
        a.decode word = a.decode other) ∧
    (∀ word err, a.decode word = .error err → ¬err.IsUnboundField) ∧
    (∀ v y, encoder.call [v] = .ok y → ∃ x, y.retag a.target.ty = .ok x ∧ a.encode v = .ok x) ∧
    ∀ v x, a.encode v = .ok x → x.ty = a.target.ty ∧
      ∀ word : Value, a.target.slice.msb < word.width → ∃ after,
        a.target.insert word x = .ok after ∧
          a.decode after =
            decoder.evaluatePure (Bindings.empty.bind .field a.target.name.simple x) := by
  obtain ⟨resolved, width, parts⟩ := make_eq_ok made
  have decodes : a.decoder = decoder := congrArg FieldAccess.decoder parts
  have encodes : a.encoder = encoder := congrArg FieldAccess.encoder parts
  subst decodes encodes
  refine ⟨?_, ?_, fun v y => encode_of_call width, fun v x encoded => ?_⟩
  · intro word other inside insideToo agree
    rw [decode, decode, Field.extract_congr inside insideToo agree]
  · have only := referenced_of_resolveTarget resolved
    exact fun word => decode_fails (fun name member => simple_eq_of_referenced only member) word
  · have type := ty_of_encode encoded
    exact ⟨type, fun word inside => exists_insert_decode type inside⟩

end FieldAccess

def Field.offset : Field :=
  ⟨.ofParts ["B", "offset"],
    ⟨[⟨15, 4, by decide⟩], by decide, List.pairwise_singleton _ _, trivial, by decide⟩,
    .sint 12, rfl⟩

/-- Twice the offset, with room for it. -/
def Function.scaled : Function where
  name := .ofParts ["B", "target", "decode"]
  params := []
  result := .sint 13
  body :=
    .binary (.shift .left)
      (.resize .signExtend (.ref .field (.ofParts ["B", "offset"])) (.sint 13))
      (.const (.wrap (.bits 4) 1))

/-- Half of the target, as a plain pattern. -/
def Function.halved : Function where
  name := .ofParts ["B", "target", "encode"]
  params := [⟨.ofParts ["target"], .sint 13⟩]
  result := .bits 12
  body :=
    .resize .truncate
      (.binary (.shift .rightSigned) (.ref .parameter (.ofParts ["target"]))
        (.const (.wrap (.bits 4) 1)))
      (.sint 12)

/-- The low bits of a word and the bits above the offset do not matter to the target. -/
theorem FieldAccess.make_confined_scaled :
    ∃ a, make (.ofParts ["B", "target"]) [.offset] .scaled .halved none = .ok a ∧
      a.decode (.wrap (.bits 16) 0xffe0) = .ok (.wrapInt (.sint 13) (-4)) ∧
      a.decode (.wrap (.bits 16) 0xffe0) = a.decode (.wrap (.sint 20) 0x3ffe7) ∧
      (∀ word err, a.decode word = .error err → ¬err.IsUnboundField) ∧
      ∃ x, a.encode (.wrapInt (.sint 13) (-4)) = .ok x ∧ x = .wrapInt (.sint 12) (-2) ∧
        ∃ after, a.target.insert (.wrap (.uint 17) 5) x = .ok after ∧
          a.decode after = .ok (.wrapInt (.sint 13) (-4)) := by
  have made : make (.ofParts ["B", "target"]) [.offset] .scaled .halved none =
      .ok ⟨.ofParts ["B", "target"], .offset, .scaled, .halved, none⟩ := rfl
  obtain ⟨confined, bound, encodes, writes⟩ := make_confined made
  refine ⟨_, made, rfl, ?_, bound, ?_⟩
  · refine confined _ _ (by decide) (by decide) fun index member => ?_
    have same : ∀ index < 16, Field.offset.slice.contains index = true →
        (Value.wrap (.bits 16) 0xffe0).bit index = (Value.wrap (.sint 20) 0x3ffe7).bit index := by
      decide
    exact same index (Nat.lt_succ_of_le (Slice.le_msb_of_contains member)) member
  · obtain ⟨x, tagged, encoded⟩ := encodes (.wrapInt (.sint 13) (-4)) _ rfl
    obtain ⟨_, inserts⟩ := writes _ x encoded
    obtain ⟨after, inserted, decoded⟩ := inserts (.wrap (.uint 17) 5) (by decide)
    have value : x = .wrapInt (.sint 12) (-2) := Except.ok.inj (tagged.symm.trans rfl)
    subst value
    exact ⟨_, encoded, rfl, after, inserted, decoded.trans rfl⟩

end MachineDescription
