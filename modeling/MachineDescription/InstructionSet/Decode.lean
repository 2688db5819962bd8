import MachineDescription.InstructionSet.Basic

namespace MachineDescription

namespace Instruction

/-- The more specific one of two instructions, the first if they are equally specific. -/
def moreSpecific (i j : Instruction) : Instruction :=
  if i.pattern.specificity < j.pattern.specificity then j else i

/-- The most specific instruction of a list, the first of several. -/
def mostSpecific? : List Instruction → Option Instruction
  | [] => none
  | first :: rest => some (rest.foldl moreSpecific first)

/-- An instruction of a list that comes after less specific ones and before none that is more
specific. -/
def Leads (best : Instruction) (instructions : List Instruction) : Prop :=
  ∃ before after, instructions = before ++ best :: after ∧
    (∀ j ∈ before, j.pattern.specificity < best.pattern.specificity) ∧
    ∀ j ∈ after, j.pattern.specificity ≤ best.pattern.specificity

theorem Leads.mem {best : Instruction} {instructions : List Instruction}
    (leads : best.Leads instructions) : best ∈ instructions := by
  obtain ⟨before, after, rfl, _, _⟩ := leads
  exact List.mem_append_right _ List.mem_cons_self

theorem Leads.specificity_le {best j : Instruction} {instructions : List Instruction}
    (leads : best.Leads instructions) (member : j ∈ instructions) :
    j.pattern.specificity ≤ best.pattern.specificity := by
  obtain ⟨before, after, rfl, below, above⟩ := leads
  rcases List.mem_append.mp member with early | late
  · exact Nat.le_of_lt (below j early)
  · rcases List.mem_cons.mp late with rfl | late
    · exact Nat.le_refl _
    · exact above j late

theorem Leads.cons {best first : Instruction} {instructions : List Instruction}
    (leads : best.Leads instructions)
    (less : first.pattern.specificity < best.pattern.specificity) :
    best.Leads (first :: instructions) := by
  obtain ⟨before, after, rfl, below, above⟩ := leads
  exact ⟨first :: before, after, rfl, List.forall_mem_cons.mpr ⟨less, below⟩, above⟩

theorem Leads.insertSecond {best first next : Instruction} {rest : List Instruction}
    (leads : best.Leads (first :: rest))
    (less : next.pattern.specificity ≤ first.pattern.specificity) :
    best.Leads (first :: next :: rest) := by
  obtain ⟨before, after, split, below, above⟩ := leads
  cases before with
  | nil =>
    obtain ⟨rfl, rfl⟩ := List.cons.inj split
    exact ⟨[], next :: rest, rfl, below, List.forall_mem_cons.mpr ⟨less, above⟩⟩
  | cons head before =>
    obtain ⟨rfl, rfl⟩ := List.cons.inj split
    obtain ⟨atFirst, below⟩ := List.forall_mem_cons.mp below
    refine ⟨first :: next :: before, after, rfl, ?_, above⟩
    exact List.forall_mem_cons.mpr
      ⟨atFirst, List.forall_mem_cons.mpr ⟨Nat.lt_of_le_of_lt less atFirst, below⟩⟩

theorem leads_foldl (first : Instruction) (rest : List Instruction) :
    (rest.foldl moreSpecific first).Leads (first :: rest) := by
  -- The instruction chosen so far stands for all that came before it.
  induction rest generalizing first with
  | nil => exact ⟨[], [], rfl, fun _ member => (nomatch member), fun _ member => (nomatch member)⟩
  | cons next rest ih =>
    rw [List.foldl_cons]
    by_cases better : first.pattern.specificity < next.pattern.specificity
    · rw [show moreSpecific first next = next from if_pos better]
      have leads := ih next
      exact leads.cons (Nat.lt_of_lt_of_le better (leads.specificity_le List.mem_cons_self))
    · rw [show moreSpecific first next = first from if_neg better]
      exact (ih first).insertSecond (Nat.not_lt.mp better)

theorem leads_of_mostSpecific? {instructions : List Instruction} {best : Instruction}
    (found : mostSpecific? instructions = some best) : best.Leads instructions := by
  cases instructions with
  | nil => cases found
  | cons first rest =>
    cases found
    exact leads_foldl first rest

theorem mostSpecific?_eq_none_iff {instructions : List Instruction} :
    mostSpecific? instructions = none ↔ instructions = [] := by
  cases instructions <;> simp [mostSpecific?]

end Instruction

namespace InstructionSet

/-- The instructions whose pattern accepts a word. -/
def candidates (s : InstructionSet) (word : Value) : List Instruction :=
  s.instructions.filter (·.pattern.accepts word)

/-- The instruction that fixes most bits among those whose pattern accepts the word. Of several with
the same number of fixed bits, the one that was registered first is taken. -/
def decode (s : InstructionSet) (word : Value) : Option Instruction :=
  Instruction.mostSpecific? (s.candidates word)

end InstructionSet

end MachineDescription
