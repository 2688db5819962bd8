import MachineDescription.Proofs.RegisterElements
import Mathlib.Algebra.BigOperators.Group.List.Basic

namespace MachineDescription

namespace Dimension

/-- The number of elements of all dimensions together, however large. -/
def volume (dims : List Dimension) : Nat :=
  (dims.map (·.size)).prod

@[simp]
theorem volume_nil : volume [] = 1 := rfl

@[simp]
theorem volume_cons (d : Dimension) (rest : List Dimension) :
    volume (d :: rest) = d.size * volume rest := by
  simp [volume]

/-- No dimension is empty, so a product on the way is never larger than the whole one. -/
theorem volume_pos (dims : List Dimension) : 0 < volume dims := by
  induction dims with
  | nil => exact Nat.one_pos
  | cons d rest ih =>
    rw [volume_cons]
    exact Nat.mul_pos d.size_pos ih

theorem volume_drop {dims : List Dimension} {k : Nat} {d : Dimension} (here : dims[k]? = some d) :
    volume (dims.drop k) = d.size * volume (dims.drop (k + 1)) := by
  obtain ⟨inside, value⟩ := List.getElem?_eq_some_iff.mp here
  rw [List.drop_eq_getElem_cons inside, value, volume_cons]

/-- Going on from a count, the dimensions that follow are refused only for the whole product. -/
theorem foldlM_repeat? (dims : List Dimension) {count : Nat} (small : count < Bits.limit 64) :
    dims.foldlM repeat? count =
      if count * volume dims < Bits.limit 64 then some (count * volume dims) else none := by
  induction dims generalizing count with
  | nil =>
    rw [volume_nil, Nat.mul_one, if_pos small]
    rfl
  | cons d rest ih =>
    rw [List.foldlM_cons, volume_cons, ← Nat.mul_assoc]
    by_cases fits : count * d.size < Bits.limit 64
    · rw [repeat?, if_pos fits]
      exact ih fits
    · -- every dimension that follows has an element, so the whole product is too large as well
      have grows : count * d.size ≤ count * d.size * volume rest :=
        Nat.le_mul_of_pos_right _ (volume_pos rest)
      rw [repeat?, if_neg fits, if_neg (by omega)]
      rfl

/-- A product that fits 32 bits is never lost on the way. -/
theorem filter_count? (dims : List Dimension) :
    (count? dims).filter (· < Bits.limit 32) =
      if volume dims < Bits.limit 32 then some (volume dims) else none := by
  have wider : Bits.limit 32 ≤ Bits.limit 64 := Bits.limit_mono (by decide)
  have one : 1 < Bits.limit 64 := by decide
  have counted := foldlM_repeat? dims one
  rw [Nat.one_mul] at counted
  rw [count?, counted]
  by_cases fits : volume dims < Bits.limit 32
  · rw [if_pos (by omega), if_pos fits, Option.filter_some, if_pos (decide_eq_true fits)]
  · rw [if_neg fits, Option.filter_eq_none_iff]
    intro width found
    split at found
    · cases found
      simpa using fits
    · cases found

end Dimension

namespace Tensor

variable {t : Tensor} {k : Nat} {ty : DataType}

/-- The width of the result is the product of the sizes that are left open, and has to fit 32 bits.
-/
theorem resultTypeFor_eq_ok_iff :
    t.resultTypeFor k = .ok ty ↔
      k < t.dims.length ∧ Dimension.volume (t.dims.drop k) < Bits.limit 32 ∧
        ty = .bits (Dimension.volume (t.dims.drop k)) := by
  unfold resultTypeFor
  rw [Dimension.filter_count?]
  by_cases inside : k < t.dims.length
  · rw [if_neg (by omega), and_iff_right inside]
    by_cases fits : Dimension.volume (t.dims.drop k) < Bits.limit 32
    · rw [if_pos fits, and_iff_right fits, Except.ok.injEq, eq_comm]
    · rw [if_neg fits]
      exact iff_of_false nofun fun valid => fits valid.1
  · rw [if_pos (by omega)]
    exact iff_of_false nofun fun valid => inside valid.1

theorem resultTypeFor_innermost (t : Tensor) :
    t.resultTypeFor (t.dims.length - 1) = .ok t.resultType := by
  have positive := List.length_pos_iff.mpr t.nonempty
  have last : Dimension.volume (t.dims.drop (t.dims.length - 1)) = t.innermost.size := by
    rw [List.drop_length_sub_one t.nonempty, Dimension.volume_cons, Dimension.volume_nil,
      Nat.mul_one]
    rfl
  refine resultTypeFor_eq_ok_iff.mpr ⟨by omega, ?_, ?_⟩
  · rw [last]
    exact t.element_lt
  · rw [last]
    rfl

/-- One more index leaves the elements of one dimension less. -/
theorem exists_resultTypeFor_succ (given : t.resultTypeFor k = .ok ty)
    (more : k + 1 < t.dims.length) :
    ∃ d inner, t.dims[k]? = some d ∧ t.resultTypeFor (k + 1) = .ok inner ∧
      ty.width = d.size * inner.width := by
  obtain ⟨inside, fits, rfl⟩ := resultTypeFor_eq_ok_iff.mp given
  have here : t.dims[k]? = some t.dims[k] := List.getElem?_eq_getElem inside
  have split := Dimension.volume_drop here
  have smaller : Dimension.volume (t.dims.drop (k + 1)) ≤ Dimension.volume (t.dims.drop k) := by
    rw [split]
    exact Nat.le_mul_of_pos_left _ t.dims[k].size_pos
  exact ⟨t.dims[k], _, here,
    resultTypeFor_eq_ok_iff.mpr ⟨more, Nat.lt_of_le_of_lt smaller fits, rfl⟩, split⟩

/-- An access with some indices has a type exactly if there is a dimension left and the product of
the sizes that are left fits 32 bits; the type is then of this width. With all indices there always
is one, the type of an element. With an index more, the width is that without the index divided by
the size of the dimension it stands for. -/
theorem resultTypeFor_product {name : Name} {shape : List (DataType × Nat)}
    (made : make name shape = .ok t) (k : Nat) :
    ((∃ ty, t.resultTypeFor k = .ok ty) ↔
      k < shape.length ∧ ((shape.drop k).map Prod.snd).prod ≤ Bits.limit 32 - 1) ∧
    (∀ ty, t.resultTypeFor k = .ok ty → ty = .bits ((shape.drop k).map Prod.snd).prod) ∧
    t.resultTypeFor (shape.length - 1) = .ok t.resultType ∧
    ∀ ty, t.resultTypeFor k = .ok ty → k + 1 < shape.length →
      ∃ entry inner, shape[k]? = some entry ∧ t.resultTypeFor (k + 1) = .ok inner ∧
        ty.width = entry.2 * inner.width := by
  have kept := shape_of_make made
  have count : t.dims.length = shape.length := by rw [← kept, List.length_map]
  have product : ((shape.drop k).map Prod.snd).prod = Dimension.volume (t.dims.drop k) := by
    rw [← kept, ← List.map_drop, List.map_map]
    rfl
  have limit := Bits.limit_pos 32
  rw [product, ← count]
  refine ⟨⟨?_, ?_⟩, ?_, t.resultTypeFor_innermost, ?_⟩
  · rintro ⟨ty, given⟩
    obtain ⟨inside, fits, _⟩ := resultTypeFor_eq_ok_iff.mp given
    exact ⟨inside, by omega⟩
  · rintro ⟨inside, fits⟩
    exact ⟨_, resultTypeFor_eq_ok_iff.mpr ⟨inside, by omega, rfl⟩⟩
  · intro ty given
    exact (resultTypeFor_eq_ok_iff.mp given).2.2
  · intro ty given more
    obtain ⟨d, inner, here, next, width⟩ := exists_resultTypeFor_succ given more
    refine ⟨(d.ty, d.size), inner, ?_, next, width⟩
    rw [← kept, List.getElem?_map, here]
    rfl

/-- Storage with more bits than a 64-bit number counts. -/
def vastShape : List (DataType × Nat) :=
  [(.bits 40, Bits.limit 40), (.bits 31, Bits.limit 31), (.bits 3, 8), (.bits 2, 4)]

/-- The product of all sizes is beyond 64 bits, that without the first one only beyond 32. -/
theorem resultTypeFor_product_vast :
    ∃ t, make (.ofParts ["V"]) vastShape = .ok t ∧
      (∀ k ∈ [0, 1, 4], ¬∃ ty, t.resultTypeFor k = .ok ty) ∧
      t.resultTypeFor 2 = .ok (.bits 32) ∧ t.resultTypeFor 3 = .ok t.resultType := by
  obtain ⟨t, made⟩ : ∃ t, make (.ofParts ["V"]) vastShape = .ok t := ⟨_, rfl⟩
  have beyond : ∀ k ∈ [0, 1, 4],
      ¬(k < vastShape.length ∧ ((vastShape.drop k).map Prod.snd).prod ≤ Bits.limit 32 - 1) := by
    decide
  obtain ⟨ty, given⟩ := (resultTypeFor_product made 2).1.mpr (by decide)
  refine ⟨t, made, fun k listed yields => ?_, ?_, (resultTypeFor_product made 3).2.2.1⟩
  · exact beyond k listed ((resultTypeFor_product made k).1.mp yields)
  · rw [given, (resultTypeFor_product made 2).2.1 ty given]
    rfl

end Tensor

end MachineDescription
