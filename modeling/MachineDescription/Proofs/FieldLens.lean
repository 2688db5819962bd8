import MachineDescription.Proofs.EncodingPattern

namespace MachineDescription

namespace Field

variable {f g : Field} {word after v w r : Value}

/-- A word with a value written at the positions of a field. -/
structure Writes (f : Field) (word v after : Value) : Prop where
  ty_eq : after.ty = word.ty
  placed : ∀ index bit, (index, bit) ∈ f.placed v → after.bit index = bit
  outside : ∀ index, f.slice.contains index = false → after.bit index = word.bit index

/-- Inserting a value says what every bit of the result is: the bits of the value stand at the
positions of the field, and the others are those of the word. -/
theorem writes_scattered (inside : f.slice.msb < word.width) (v : Value) :
    f.Writes word v (f.scattered word v) where
  ty_eq := rfl
  placed := by
    intro index bit member
    rw [bit_scattered inside, written?_placed.mpr member]
    rfl
  outside := by
    intro index clear
    rw [bit_scattered inside, written?_placed_eq_none (Bool.eq_false_iff.mp clear)]
    rfl

/-- There is one word with the value written. -/
theorem Writes.unique {other : Value} (left : f.Writes word v after)
    (right : f.Writes word v other) : after = other := by
  refine Value.eq_of_bits (left.ty_eq.trans right.ty_eq.symm) fun index _ => ?_
  cases inside : f.slice.contains index with
  | true =>
    obtain ⟨bit, member⟩ := exists_placed inside v
    rw [left.placed index bit member, right.placed index bit member]
  | false => rw [left.outside index inside, right.outside index inside]

/-- The laws of reading and writing can so be proved bit by bit. -/
theorem insert_eq_ok_iff_writes :
    f.insert word v = .ok after ↔
      v.width = f.ty.width ∧ f.slice.msb < word.width ∧ f.Writes word v after := by
  rw [insert_eq_ok_iff]
  refine and_congr_right fun _ => and_congr_right fun inside => ?_
  have scattered := writes_scattered inside v
  constructor
  · rintro rfl
    exact scattered
  · exact fun writes => writes.unique scattered

theorem exists_insert (width : v.width = f.ty.width) (inside : f.slice.msb < word.width) :
    ∃ after, f.insert word v = .ok after :=
  ⟨_, insert_eq_ok_iff.mpr ⟨width, inside, rfl⟩⟩

theorem Writes.width_eq (writes : f.Writes word v after) : after.width = word.width :=
  congrArg DataType.width writes.ty_eq

/-- A written value is read back under the type of the field. -/
theorem extract_of_insert (inserted : f.insert word v = .ok after) (tagged : v.retag f.ty = .ok r) :
    f.extract after = .ok r := by
  obtain ⟨_, inside, writes⟩ := insert_eq_ok_iff_writes.mp inserted
  obtain ⟨_, type, pattern⟩ := Value.retag_eq_ok_iff.mp tagged
  rw [← writes.width_eq] at inside
  refine (extract_eq_ok_iff inside).mpr ⟨type, fun index bit member => ?_⟩
  obtain ⟨n, found, value⟩ := mem_placed.mp member
  rw [Value.bit, pattern] at value
  exact writes.placed index bit (mem_placed.mpr ⟨n, found, value⟩)

/-- Writing what was read changes nothing. -/
theorem insert_of_extract (extracted : f.extract word = .ok v) (inside : f.slice.msb < word.width) :
    f.insert word v = .ok word := by
  obtain ⟨type, placed⟩ := (extract_eq_ok_iff inside).mp extracted
  refine insert_eq_ok_iff_writes.mpr ⟨congrArg DataType.width type, inside, ?_⟩
  exact ⟨rfl, placed, fun _ _ => rfl⟩

/-- The last write counts. -/
theorem insert_of_insert (inserted : f.insert word v = .ok after) (width : w.width = f.ty.width) :
    f.insert after w = f.insert word w := by
  obtain ⟨_, inside, writes⟩ := insert_eq_ok_iff_writes.mp inserted
  obtain ⟨last, written⟩ := exists_insert width inside
  obtain ⟨_, _, again⟩ := insert_eq_ok_iff_writes.mp written
  rw [written]
  refine insert_eq_ok_iff_writes.mpr ⟨width, writes.width_eq.symm ▸ inside, ?_⟩
  refine ⟨again.ty_eq.trans writes.ty_eq.symm, again.placed, fun index clear => ?_⟩
  rw [again.outside index clear, writes.outside index clear]

/-- A field without a common bit is read as before. -/
theorem extract_of_insert_apart (apart : f.slice.overlaps g.slice = false)
    (inserted : f.insert word v = .ok after) (inside : g.slice.msb < word.width) :
    g.extract after = g.extract word := by
  obtain ⟨_, _, writes⟩ := insert_eq_ok_iff_writes.mp inserted
  have read := extract_eq_ok inside
  obtain ⟨type, placed⟩ := (extract_eq_ok_iff inside).mp read
  rw [read]
  refine (extract_eq_ok_iff (writes.width_eq.symm ▸ inside)).mpr ⟨type, fun index bit member => ?_⟩
  have clear := Slice.contains_eq_false_of_apart apart (contains_of_placed member)
  rw [writes.outside index clear, placed index bit member]

/-- Fields without a common bit are written in either order. -/
theorem insert_comm {other both : Value} (apart : f.slice.overlaps g.slice = false)
    (first : f.insert word v = .ok after) (second : g.insert word w = .ok other)
    (third : g.insert after w = .ok both) : f.insert other v = .ok both := by
  obtain ⟨width, inside, left⟩ := insert_eq_ok_iff_writes.mp first
  obtain ⟨_, _, right⟩ := insert_eq_ok_iff_writes.mp second
  obtain ⟨_, _, last⟩ := insert_eq_ok_iff_writes.mp third
  refine insert_eq_ok_iff_writes.mpr ⟨width, right.width_eq.symm ▸ inside, ?_, ?_, ?_⟩
  · rw [last.ty_eq, left.ty_eq, right.ty_eq]
  · intro index bit member
    have swapped : g.slice.overlaps f.slice = false := by rwa [Slice.overlaps_comm]
    have clear := Slice.contains_eq_false_of_apart swapped (contains_of_placed member)
    rw [last.outside index clear, left.placed index bit member]
  · intro index clear
    -- outside the first field the bit is that of the second one, or still that of the word
    cases inSecond : g.slice.contains index with
    | true =>
      obtain ⟨bit, member⟩ := exists_placed inSecond w
      rw [last.placed index bit member, right.placed index bit member]
    | false =>
      rw [last.outside index inSecond, left.outside index clear, right.outside index inSecond]

theorem extract_of_narrow (narrow : word.width ≤ f.slice.msb) :
    ∃ err, f.extract word = .error err ∧ err.kind = .shape := by
  have refused : word.slice f.slice = Value.refuse (.sliceBeyond f.slice word) :=
    if_neg (Nat.not_lt.mpr narrow)
  rw [extract, refused]
  exact ⟨_, rfl, rfl⟩

theorem insert_of_width_ne (other : v.width ≠ f.ty.width) :
    ∃ err, f.insert word v = .error err ∧ err.kind = .typeMismatch := by
  have refused : v.retag f.ty = Value.refuse (.cannotRetag v f.ty) := dif_neg other
  rw [insert, refused]
  exact ⟨_, rfl, rfl⟩

theorem insert_of_narrow (width : v.width = f.ty.width) (narrow : word.width ≤ f.slice.msb) :
    ∃ err, f.insert word v = .error err ∧ err.kind = .shape := by
  have tagged : v.retag f.ty = .ok ⟨f.ty, v.pattern, width ▸ v.pattern_lt⟩ := dif_pos width
  rw [insert, tagged]
  refine ⟨_, if_neg (Nat.not_lt.mpr narrow), rfl⟩

/-- In a word that is wide enough for a field, a value of the field's width can be written. This
keeps the type of the word and all bits outside the field, the value is read back under the field's
type, writing what is read changes nothing, and the last write counts. A field without a common bit
is read as before, and it does not matter which of the two is written first. Reading fails exactly
on a word that is too narrow; writing fails on a value of another width and then on such a word. -/
theorem extract_insert_lawful (f : Field) (word : Value) :
    (f.slice.msb < word.width →
      (∃ v, f.extract word = .ok v ∧ f.insert word v = .ok word) ∧
      ∀ v : Value, v.width = f.ty.width → ∃ after r,
        f.insert word v = .ok after ∧ after.ty = word.ty ∧
        (∀ index, f.slice.contains index = false → after.bit index = word.bit index) ∧
        v.retag f.ty = .ok r ∧ f.extract after = .ok r ∧
        (∀ w : Value, w.width = f.ty.width → f.insert after w = f.insert word w) ∧
        ∀ g : Field, f.slice.overlaps g.slice = false → g.slice.msb < word.width →
          g.extract after = g.extract word ∧
          ∀ w : Value, w.width = g.ty.width → ∃ other both,
            g.insert word w = .ok other ∧ g.insert after w = .ok both ∧
              f.insert other v = .ok both) ∧
    (word.width ≤ f.slice.msb → ∃ err, f.extract word = .error err ∧ err.kind = .shape) ∧
    ∀ v : Value,
      (v.width ≠ f.ty.width → ∃ err, f.insert word v = .error err ∧ err.kind = .typeMismatch) ∧
      (v.width = f.ty.width → word.width ≤ f.slice.msb →
        ∃ err, f.insert word v = .error err ∧ err.kind = .shape) := by
  refine ⟨fun inside => ⟨?_, fun v width => ?_⟩, extract_of_narrow,
    fun v => ⟨insert_of_width_ne, insert_of_narrow⟩⟩
  · have read := extract_eq_ok inside
    exact ⟨_, read, insert_of_extract read inside⟩
  · obtain ⟨after, inserted⟩ := exists_insert width inside
    obtain ⟨_, _, writes⟩ := insert_eq_ok_iff_writes.mp inserted
    have tagged : v.retag f.ty = .ok ⟨f.ty, v.pattern, width ▸ v.pattern_lt⟩ := dif_pos width
    refine ⟨after, _, inserted, writes.ty_eq, writes.outside, tagged,
      extract_of_insert inserted tagged, fun w => insert_of_insert inserted, ?_⟩
    intro g apart insideToo
    refine ⟨extract_of_insert_apart apart inserted insideToo, fun w widthToo => ?_⟩
    obtain ⟨other, second⟩ := exists_insert widthToo insideToo
    obtain ⟨both, third⟩ := exists_insert widthToo (writes.width_eq.symm ▸ insideToo)
    exact ⟨other, both, second, third, insert_comm apart inserted second third⟩

/-- A field whose highest bit is the lowest one of the word. -/
def turned : Field :=
  ⟨.ofParts ["Staggered", "c"], .turned, .uint 3, rfl⟩

/-- A signed value goes into a signed word, and comes back unsigned. -/
theorem extract_insert_lawful_turned :
    turned.slice.msb < (Value.wrap (.sint 8) 0b10110101).width ∧
      (Value.wrap (.sint 3) 0b011).width = turned.ty.width ∧
      ∃ after r,
        turned.insert (.wrap (.sint 8) 0b10110101) (.wrap (.sint 3) 0b011) = .ok after ∧
        after = .wrap (.sint 8) 0b11110100 ∧ turned.extract after = .ok r ∧
        r = .wrap (.uint 3) 0b011 ∧
        turned.insert after (.wrap (.bits 3) 0b100) =
          turned.insert (.wrap (.sint 8) 0b10110101) (.wrap (.bits 3) 0b100) := by
  have inside : turned.slice.msb < (Value.wrap (.sint 8) 0b10110101).width := by decide
  obtain ⟨after, r, inserted, _, _, tagged, read, last, _⟩ :=
    ((extract_insert_lawful turned (.wrap (.sint 8) 0b10110101)).1 inside).2
      (.wrap (.sint 3) 0b011) rfl
  have word : after = .wrap (.sint 8) 0b11110100 := Except.ok.inj (inserted.symm.trans rfl)
  have value : r = .wrap (.uint 3) 0b011 := Except.ok.inj (tagged.symm.trans rfl)
  exact ⟨inside, rfl, after, r, inserted, word, read, value, last (.wrap (.bits 3) 0b100) rfl⟩

end Field

end MachineDescription
