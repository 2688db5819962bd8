import MachineDescription.Slice.Range

namespace MachineDescription.BitRange

/-- A place among the indices of ranges. A cursor goes through the ranges one index at a time, each
from its lowest index up. It keeps the ranges that are left and, once it has entered the first of
them, the place at which to go on. -/
structure Cursor where
  ranges : List BitRange
  /-- Where to go on in the first range, if it has been entered. -/
  place : Option Nat

namespace Cursor

/-- The index after this one, if there is one of 32 bits. -/
def following? (index : Nat) : Option Nat :=
  if index + 1 < Bits.limit 32 then some (index + 1) else none

/-- The first index at the place or in a later range, and the cursor behind it. -/
def advance? : List BitRange → Option Nat → Option (Nat × Cursor)
  | [], _ => none
  | r :: rest, place =>
    let index := place.getD r.lsb
    if index ≤ r.msb then
      if following? index = none ∨ index = r.msb then some (index, ⟨rest, none⟩)
      else some (index, ⟨r :: rest, following? index⟩)
    else advance? rest none

def next? (c : Cursor) : Option (Nat × Cursor) :=
  advance? c.ranges c.place

/-- The indices of the first range from the place on, and those of the later ranges. -/
def pending (c : Cursor) : List Nat :=
  match c.ranges with
  | [] => []
  | r :: rest =>
    let index := c.place.getD r.lsb
    List.range' index (r.msb + 1 - index) ++ rest.flatMap indices

theorem pending_cons (r : BitRange) (rest : List BitRange) (place : Option Nat) :
    pending ⟨r :: rest, place⟩ =
      List.range' (place.getD r.lsb) (r.msb + 1 - place.getD r.lsb) ++ rest.flatMap indices := rfl

/-- Before a range is entered, all of it is to come. -/
theorem pending_enter (ranges : List BitRange) :
    pending ⟨ranges, none⟩ = ranges.flatMap indices := by
  cases ranges with
  | nil => rfl
  | cons r rest =>
    have size : r.msb + 1 - r.lsb = r.size := Nat.succ_sub r.lsb_le_msb
    rw [pending_cons, Option.getD_none, size]
    rfl

/-- Every step leaves less to come, so a cursor comes to its end. -/
theorem pending_shortens {c d : Cursor} {found : Nat} (step : c.next? = some (found, d)) :
    d.pending.length < c.pending.length := by
  obtain ⟨ranges, place⟩ := c
  rw [next?] at step
  fun_induction advance? ranges place with
  | case1 => cases step
  | case2 r rest place index inside last =>
    obtain ⟨_, rfl⟩ := Prod.mk.inj (Option.some.inj step)
    rw [pending_cons, pending_enter, List.length_append, List.length_range']
    omega
  | case3 r rest place index inside inner =>
    obtain ⟨more, below⟩ := not_or.mp inner
    obtain ⟨next, follows⟩ := Option.ne_none_iff_exists'.mp more
    have above : index < next := by
      unfold following? at follows
      split at follows <;> cases follows
      exact Nat.lt_succ_self index
    obtain ⟨_, rfl⟩ := Prod.mk.inj (Option.some.inj step)
    rw [pending_cons, pending_cons, follows, Option.getD_some, List.length_append,
      List.length_append,
      List.length_range', List.length_range']
    omega
  | case4 r rest place index beyond ih =>
    have later := ih step
    rw [pending_enter] at later
    rw [pending_cons, List.length_append]
    omega

/-- The indices that the cursor comes to, up to its end. -/
def yields (c : Cursor) : List Nat :=
  match _step : c.next? with
  | none => []
  | some (index, d) => index :: d.yields
termination_by c.pending.length
decreasing_by exact pending_shortens _step

end Cursor

end MachineDescription.BitRange
