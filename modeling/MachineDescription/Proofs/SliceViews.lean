import MachineDescription.Slice.Build
import MachineDescription.Proofs.BitWrites
import MachineDescription.Proofs.FieldBits
import MachineDescription.Proofs.SlicePositions

namespace MachineDescription

namespace BitRange

namespace Cursor

variable {c d : Cursor} {found : Nat}

/-- From its place the cursor yields a list of indices and comes to another place. -/
inductive Produces : Cursor → List Nat → Cursor → Prop
  | start (c : Cursor) : Produces c [] c
  | next {c d last : Cursor} {index : Nat} {later : List Nat} :
      c.next? = some (index, d) → Produces d later last → Produces c (index :: later) last

/-- A range that the cursor has passed has nothing pending. -/
theorem pending_passed {r : BitRange} {place : Option Nat} (passed : ¬place.getD r.lsb ≤ r.msb)
    (rest : List BitRange) : pending ⟨r :: rest, place⟩ = pending ⟨rest, none⟩ := by
  have nothing : r.msb + 1 - place.getD r.lsb = 0 := by omega
  rw [pending_cons, pending_enter, nothing]
  rfl

theorem pending_of_ended (ended : c.next? = none) : c.pending = [] := by
  obtain ⟨ranges, place⟩ := c
  rw [next?] at ended
  fun_induction advance? ranges place with
  | case1 => rfl
  | case2 => cases ended
  | case3 => cases ended
  | case4 r rest place index passed ih => rw [pending_passed passed, ih ended]

theorem following?_of_le {index bound : Nat} (below : index ≤ bound) (bounded : bound ≤ maxIndex) :
    following? index = some (index + 1) := by
  have room : maxIndex + 1 < Bits.limit 32 := by decide
  exact if_pos (by omega)

/-- A step yields the first of the pending indices and leaves the others. -/
theorem pending_of_step (bounded : ∀ r ∈ c.ranges, r.msb ≤ maxIndex)
    (step : c.next? = some (found, d)) :
    c.pending = found :: d.pending ∧ ∀ r ∈ d.ranges, r ∈ c.ranges := by
  obtain ⟨ranges, place⟩ := c
  rw [next?] at step
  fun_induction advance? ranges place with
  | case1 => cases step
  | case2 r rest place index inside last =>
    obtain ⟨rfl, rfl⟩ := Prod.mk.inj (Option.some.inj step)
    -- every index of the range has one after it, so the range is left at its highest one
    have follows := following?_of_le inside (bounded r List.mem_cons_self)
    have top : index = r.msb := last.resolve_left (by rw [follows]; exact Option.some_ne_none _)
    have one : r.msb + 1 - place.getD r.lsb = 1 := by omega
    rw [pending_cons, pending_enter, one]
    exact ⟨rfl, fun t member => List.mem_cons_of_mem r member⟩
  | case3 r rest place index inside inner =>
    obtain ⟨rfl, rfl⟩ := Prod.mk.inj (Option.some.inj step)
    have follows := following?_of_le inside (bounded r List.mem_cons_self)
    have first : r.msb + 1 - place.getD r.lsb = r.msb - place.getD r.lsb + 1 := by omega
    rw [pending_cons, pending_cons, follows, first, List.range'_succ, Option.getD_some,
      Nat.add_sub_add_right]
    exact ⟨rfl, fun t member => member⟩
  | case4 r rest place index passed ih =>
    obtain ⟨taken, kept⟩ := ih (fun t member => bounded t (List.mem_cons_of_mem r member)) step
    rw [pending_passed passed]
    exact ⟨taken, fun t member => List.mem_cons_of_mem r (kept t member)⟩

/-- As long as no index is beyond the highest one, the cursor comes to all that are pending. -/
theorem yields_eq_pending (bounded : ∀ r ∈ c.ranges, r.msb ≤ maxIndex) :
    c.yields = c.pending := by
  fun_induction yields c with
  | case1 c ended => exact (pending_of_ended ended).symm
  | case2 c index d step ih =>
    obtain ⟨taken, kept⟩ := pending_of_step bounded step
    rw [taken, ih fun r member => bounded r (kept r member)]

theorem produces_yields (c : Cursor) : ∃ last, c.Produces c.yields last ∧ last.next? = none := by
  fun_induction yields c with
  | case1 c ended => exact ⟨c, .start c, ended⟩
  | case2 c index d step ih =>
    obtain ⟨last, run, ended⟩ := ih
    exact ⟨last, .next step run, ended⟩

end Cursor

/-- Of two ranges without a common index, the one that begins first ends before the other. -/
theorem lt_of_apart {r t : BitRange} (order : r.lsb ≤ t.lsb) (apart : r.overlaps t = false)
    {index other : Nat} (left : index ∈ r.indices) (right : other ∈ t.indices) : index < other := by
  obtain ⟨_, below⟩ := mem_indices.mp left
  obtain ⟨above, _⟩ := mem_indices.mp right
  have ordered := t.lsb_le_msb
  simp only [overlaps, Bool.and_eq_false_iff, decide_eq_false_iff_not] at apart
  omega

end BitRange

namespace Slice

theorem cursor_perm (s : Slice) : s.cursor.ranges.Perm s.ranges :=
  List.mergeSort_perm _ _

/-- The cursor meets the ranges by their lowest index. -/
theorem cursor_sorted (s : Slice) : s.cursor.ranges.Pairwise (fun r t => r.lsb ≤ t.lsb) := by
  refine List.Pairwise.imp of_decide_eq_true (List.pairwise_mergeSort ?_ ?_ s.ranges)
  · intro q r t first second
    exact decide_eq_true (Nat.le_trans (of_decide_eq_true first) (of_decide_eq_true second))
  · intro r t
    rw [← Bool.decide_or]
    exact decide_eq_true (Nat.le_total r.lsb t.lsb)

theorem cursor_apart (s : Slice) :
    s.cursor.ranges.Pairwise (fun r t => r.overlaps t = false) :=
  s.apart.perm s.cursor_perm.symm fun {r t} clear => r.overlaps_comm t ▸ clear

/-- The cursor passes the ranges one after another. -/
theorem indices_eq (s : Slice) : s.indices = s.cursor.ranges.flatMap BitRange.indices := by
  have bounded : ∀ r ∈ s.cursor.ranges, r.msb ≤ BitRange.maxIndex :=
    fun r member => s.bounded r (s.cursor_perm.mem_iff.mp member)
  rw [indices, BitRange.Cursor.yields_eq_pending bounded]
  exact BitRange.Cursor.pending_enter _

/-- Going through a slice meets the positions of the bits of a value, in an order of its own. -/
theorem indices_perm_positions (s : Slice) : s.indices.Perm s.positions := by
  rw [indices_eq]
  exact (s.cursor_perm.trans (List.reverse_perm s.ranges).symm).flatMap_right BitRange.indices

theorem indices_ascending (s : Slice) : s.indices.Pairwise (· < ·) := by
  rw [indices_eq, List.pairwise_flatMap]
  refine ⟨fun r _ => List.pairwise_lt_range', ?_⟩
  exact (s.cursor_sorted.and s.cursor_apart).imp fun ⟨order, clear⟩ index left other right =>
    BitRange.lt_of_apart order clear left right

theorem mem_indices {s : Slice} {index : Nat} : index ∈ s.indices ↔ s.contains index = true :=
  s.indices_perm_positions.mem_iff.trans mem_positions

/-- A mask is made by writing a one at every index. -/
theorem mask_eq_putAll (s : Slice) :
    s.mask = Bits.putAll 0 (s.indices.map fun index => (index, true)) := by
  rw [Bits.putAll, List.foldl_map]
  rfl

theorem testBit_mask (s : Slice) (index : Nat) : s.mask.testBit index = s.contains index := by
  rw [mask_eq_putAll, Bits.testBit_putAll]
  cases inside : s.contains index with
  | true =>
    have written : (index, true) ∈ s.indices.map fun index => (index, true) :=
      List.mem_map_of_mem (mem_indices.mpr inside)
    have ones : ∀ bit, (index, bit) ∈ s.indices.map (fun index => (index, true)) → bit = true := by
      intro bit member
      obtain ⟨_, _, same⟩ := List.mem_map.mp member
      exact (Prod.mk.inj same).2.symm
    rw [Bits.written?_eq_some_of_agree written ones]
    rfl
  | false =>
    have untouched : Bits.written? (s.indices.map fun index => (index, true)) index = none := by
      refine Bits.written?_eq_none_iff.mpr fun bit member => ?_
      obtain ⟨other, member, same⟩ := List.mem_map.mp member
      rw [(Prod.mk.inj same).1, mem_indices, inside] at member
      cases member
    rw [untouched]
    exact Nat.zero_testBit index

theorem mask_lt (s : Slice) : s.mask < Bits.limit (s.msb + 1) := by
  refine Bits.lt_limit_iff.mpr fun index beyond => ?_
  rw [testBit_mask, Bool.eq_false_iff]
  intro inside
  exact absurd (le_msb_of_contains inside) (Nat.not_le_of_lt beyond)

theorem bit_maskValue (s : Slice) (index : Nat) : s.maskValue.bit index = s.contains index := by
  rw [maskValue, Value.bit_wrap, testBit_mask, Bool.eq_iff_iff, Bool.and_eq_true,
    decide_eq_true_iff]
  exact and_iff_right_of_imp fun inside => Nat.lt_succ_of_le (le_msb_of_contains inside)

/-- Going through a slice comes to an end. On the way it meets each index of the slice once, in
ascending order, as many as the slice has bits and the same as the positions of the bits of a value.
The mask has the bits at these indices, and slices overlap when they have a common one. -/
theorem views_agree (s t : Slice) :
    (∃ last, s.cursor.Produces s.indices last ∧ last.next? = none) ∧
    s.indices.Pairwise (· < ·) ∧ (∀ index, index ∈ s.indices ↔ s.contains index = true) ∧
    s.indices.Perm s.positions ∧ s.indices.length = s.size ∧ s.positions.length = s.size ∧
    s.maskValue.ty = .bits (s.msb + 1) ∧ (∀ index, s.maskValue.bit index = s.contains index) ∧
    (s.overlaps t = true ↔ ∃ index, s.contains index = true ∧ t.contains index = true) := by
  have same := s.indices_perm_positions
  refine ⟨s.cursor.produces_yields, s.indices_ascending, ?_, same, ?_, s.length_positions, rfl,
    s.bit_maskValue, overlaps_iff⟩
  · exact fun index => mem_indices
  · rw [same.length_eq, length_positions]

end Slice

end MachineDescription
