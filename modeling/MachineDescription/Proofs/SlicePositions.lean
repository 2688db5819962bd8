import MachineDescription.Slice.Basic
import Mathlib.Data.List.Nodup

namespace MachineDescription

namespace BitRange

theorem nodup_descending {ranges : List BitRange}
    (apart : ranges.Pairwise (fun r s => r.overlaps s = false)) : (descending ranges).Nodup := by
  induction ranges with
  | nil => exact List.nodup_nil
  | cons r rest ih =>
    obtain ⟨clear, later⟩ := List.pairwise_cons.mp apart
    change (r.indices.reverse ++ descending rest).Nodup
    refine List.nodup_append.mpr ⟨?_, ih later, ?_⟩
    · exact List.nodup_reverse.mpr List.nodup_range'
    · rintro index inFirst other inRest rfl
      obtain ⟨s, member, inside⟩ := List.mem_flatMap.mp inRest
      have atFirst := contains_iff.mpr (mem_indices.mp (List.mem_reverse.mp inFirst))
      have atOther := contains_iff.mpr (mem_indices.mp (List.mem_reverse.mp inside))
      have common := overlaps_iff.mpr ⟨index, atFirst, atOther⟩
      rw [clear s member] at common
      cases common

end BitRange

namespace Slice

/-- A slice lists each of its indices once. -/
theorem nodup_positions (s : Slice) : s.positions.Nodup := by
  rw [positions_eq_reverse]
  exact List.nodup_reverse.mpr (BitRange.nodup_descending s.apart)

theorem contains_iff {s : Slice} {index : Nat} :
    s.contains index = true ↔ ∃ r ∈ s.ranges, r.contains index = true := by
  simp [contains]

theorem exists_contains (s : Slice) : ∃ index, s.contains index = true := by
  obtain ⟨r, member⟩ := List.exists_mem_of_ne_nil _ s.nonempty
  exact ⟨r.msb, contains_iff.mpr ⟨r, member, r.contains_msb⟩⟩

/-- No index of a slice is above its highest one. -/
theorem le_msb_of_contains {s : Slice} {index : Nat} (inside : s.contains index = true) :
    index ≤ s.msb := by
  obtain ⟨r, member, inRange⟩ := contains_iff.mp inside
  have top : r.msb ∈ s.ranges.map BitRange.msb := List.mem_map_of_mem member
  have bound := List.le_max?_getD_of_mem (k := 0) top
  exact Nat.le_trans (BitRange.contains_iff.mp inRange).2 bound

/-- Two slices overlap exactly when they have a common index. -/
theorem overlaps_iff {s t : Slice} :
    s.overlaps t = true ↔ ∃ index, s.contains index = true ∧ t.contains index = true := by
  simp only [overlaps, List.any_eq_true, BitRange.overlaps_iff, contains_iff]
  constructor
  · rintro ⟨r, inS, q, inT, index, atR, atQ⟩
    exact ⟨index, ⟨r, inS, atR⟩, q, inT, atQ⟩
  · rintro ⟨index, ⟨r, inS, atR⟩, q, inT, atQ⟩
    exact ⟨r, inS, q, inT, index, atR, atQ⟩

theorem contains_eq_false_of_apart {s t : Slice} (apart : s.overlaps t = false) {index : Nat}
    (inside : t.contains index = true) : s.contains index = false := by
  rw [Bool.eq_false_iff]
  intro common
  have overlap := overlaps_iff.mpr ⟨index, common, inside⟩
  rw [apart] at overlap
  cases overlap

theorem overlaps_comm (s t : Slice) : s.overlaps t = t.overlaps s := by
  rw [Bool.eq_iff_iff, overlaps_iff, overlaps_iff]
  exact ⟨fun ⟨index, left, right⟩ => ⟨index, right, left⟩,
    fun ⟨index, left, right⟩ => ⟨index, right, left⟩⟩

end Slice

end MachineDescription
