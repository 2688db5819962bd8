import MachineDescription.Bits

namespace MachineDescription.Bits

/-- The bit that a sequence of writes leaves at an index, if it writes there at all. -/
def written? : List (Nat × Bool) → Nat → Option Bool
  | [], _ => none
  | (index, bit) :: rest, other =>
    (written? rest other).or (if index = other then some bit else none)

/-- Carry out a sequence of writes. -/
def putAll (n : Nat) (writes : List (Nat × Bool)) : Nat :=
  writes.foldl (fun bits entry => put bits entry.1 entry.2) n

@[simp]
theorem written?_nil (index : Nat) : written? [] index = none := rfl

/-- The later writes count, and the earlier ones where the later ones leave a bit alone. -/
theorem written?_append (earlier later : List (Nat × Bool)) (index : Nat) :
    written? (earlier ++ later) index = (written? later index).or (written? earlier index) := by
  induction earlier with
  | nil => simp
  | cons entry rest ih =>
    obtain ⟨first, bit⟩ := entry
    simp only [List.cons_append, written?, ih, Option.or_assoc]

theorem mem_of_written? {writes : List (Nat × Bool)} {index : Nat} {bit : Bool}
    (last : written? writes index = some bit) : (index, bit) ∈ writes := by
  induction writes with
  | nil => cases last
  | cons entry rest ih =>
    obtain ⟨first, other⟩ := entry
    rcases Option.or_eq_some_iff.mp last with later | ⟨_, now⟩
    · exact List.mem_cons_of_mem _ (ih later)
    · split at now
      · rename_i same
        cases now
        rw [same]
        exact List.mem_cons_self
      · cases now

theorem written?_eq_none_iff {writes : List (Nat × Bool)} {index : Nat} :
    written? writes index = none ↔ ∀ bit, (index, bit) ∉ writes := by
  induction writes with
  | nil => simp
  | cons entry rest ih =>
    obtain ⟨first, other⟩ := entry
    simp only [written?, Option.or_eq_none_iff, ih, ite_eq_right_iff, reduceCtorEq, imp_false,
      List.mem_cons, Prod.mk.injEq, not_or, not_and]
    constructor
    · rintro ⟨later, apart⟩ bit
      exact ⟨fun same => absurd same.symm apart, later bit⟩
    · intro clear
      exact ⟨fun bit => (clear bit).2, fun same => (clear other).1 same.symm rfl⟩

/-- Writes that agree at an index leave there what any of them writes. -/
theorem written?_eq_some_of_agree {writes : List (Nat × Bool)} {index : Nat} {bit : Bool}
    (member : (index, bit) ∈ writes) (agree : ∀ other, (index, other) ∈ writes → other = bit) :
    written? writes index = some bit := by
  cases last : written? writes index with
  | none => exact absurd member (written?_eq_none_iff.mp last bit)
  | some other => rw [agree other (mem_of_written? last)]

/-- What is left at an index is the bit of the last write there, or the old bit if there was none.
-/
theorem testBit_putAll (n : Nat) (writes : List (Nat × Bool)) (index : Nat) :
    (putAll n writes).testBit index = (written? writes index).getD (n.testBit index) := by
  induction writes generalizing n with
  | nil => rfl
  | cons entry rest ih =>
    obtain ⟨first, bit⟩ := entry
    change (putAll (put n first bit) rest).testBit index = _
    rw [ih, testBit_put]
    simp only [written?]
    cases written? rest index with
    | none => by_cases same : first = index <;> simp [same]
    | some other => rfl

end MachineDescription.Bits
