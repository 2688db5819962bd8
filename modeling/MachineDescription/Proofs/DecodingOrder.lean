import MachineDescription.Proofs.Decoding
import MachineDescription.Proofs.EncodingPattern
import Mathlib.Data.Set.Card

namespace MachineDescription

namespace Instruction

variable {best other : Instruction} {instructions : List Instruction}

theorem Leads.unique (left : best.Leads instructions) (right : other.Leads instructions) :
    best = other := by
  obtain ⟨before, after, rfl, below, above⟩ := left
  obtain ⟨before', after', same, below', above'⟩ := right
  rcases List.append_eq_append_iff.mp same with ⟨gap, rfl, rest⟩ | ⟨gap, rfl, rest⟩
  · cases gap with
    | nil => exact (List.cons.inj rest).1
    | cons first gap =>
      -- `best` comes before `other`, and neither may yield to the other.
      obtain ⟨rfl, rfl⟩ := List.cons.inj rest
      have less := below' best (List.mem_append_right _ List.mem_cons_self)
      have most := above other (List.mem_append_right _ List.mem_cons_self)
      omega
  · cases gap with
    | nil => exact (List.cons.inj rest).1.symm
    | cons first gap =>
      obtain ⟨rfl, rfl⟩ := List.cons.inj rest
      have less := below other (List.mem_append_right _ List.mem_cons_self)
      have most := above' best (List.mem_append_right _ List.mem_cons_self)
      omega

/-- Going through the instructions once and keeping the best one so far ends with the earliest of
the most specific ones. -/
theorem mostSpecific?_eq_some_iff :
    mostSpecific? instructions = some best ↔ best.Leads instructions := by
  refine ⟨leads_of_mostSpecific?, fun leads => ?_⟩
  cases found : mostSpecific? instructions with
  | none =>
    have member := leads.mem
    rw [mostSpecific?_eq_none_iff.mp found] at member
    cases member
  | some other => rw [(leads_of_mostSpecific? found).unique leads]

/-- Instructions that are passed over may stand anywhere between the others. -/
theorem leads_filter_iff {counts : Instruction → Bool} :
    best.Leads (instructions.filter counts) ↔
      ∃ before after, instructions = before ++ best :: after ∧ counts best = true ∧
        (∀ j ∈ before, counts j = true → j.pattern.specificity < best.pattern.specificity) ∧
        ∀ j ∈ after, counts j = true → j.pattern.specificity ≤ best.pattern.specificity := by
  constructor
  · rintro ⟨before, after, split, below, above⟩
    obtain ⟨early, late, rfl, rfl, kept⟩ := List.filter_eq_append_iff.mp split
    obtain ⟨gap, rest, rfl, dropped, counted, rfl⟩ := List.filter_eq_cons_iff.mp kept
    refine ⟨early ++ gap, rest, (List.append_assoc ..).symm, counted, fun j member counts => ?_,
      fun j member counts => above j (List.mem_filter.mpr ⟨member, counts⟩)⟩
    rcases List.mem_append.mp member with inEarly | inGap
    · exact below j (List.mem_filter.mpr ⟨inEarly, counts⟩)
    · exact absurd counts (dropped j inGap)
  · rintro ⟨before, after, rfl, counted, below, above⟩
    refine ⟨before.filter counts, after.filter counts, ?_, fun j member => ?_, fun j member => ?_⟩
    · rw [List.filter_append, List.filter_cons_of_pos counted]
    · obtain ⟨inside, counts⟩ := List.mem_filter.mp member
      exact below j inside counts
    · obtain ⟨inside, counts⟩ := List.mem_filter.mp member
      exact above j inside counts

end Instruction

namespace Encoding

/-- The bits of the word that the bound fields cover. -/
def covered (e : Encoding) : Set Nat :=
  {index | ∃ b ∈ e.bindings, b.field.slice.contains index = true}

/-- An instruction fixes each bit that a bound field covers. -/
theorem coe_fixed_pattern (e : Encoding) : (e.pattern.fixed : Set Nat) = e.covered := by
  ext index
  rw [Finset.mem_coe, mem_fixed_pattern]
  simp only [mem_constantBits]
  constructor
  · rintro ⟨bit, b, bound, placed⟩
    exact ⟨b, bound, Field.contains_of_placed placed⟩
  · rintro ⟨b, bound, inside⟩
    obtain ⟨bit, placed⟩ := Field.exists_placed inside b.value
    exact ⟨bit, b, bound, placed⟩

/-- A bit that several bound fields share is counted once. -/
theorem encard_covered (e : Encoding) : e.covered.encard = e.pattern.specificity := by
  rw [← coe_fixed_pattern, Set.encard_coe_eq_coe_finsetCard, Pattern.specificity_eq_card]

end Encoding

namespace InstructionSet

/-- A word that no instruction accepts is not decoded. Any other word is decoded as the earliest of
the most specific instructions that accept it, where the specificity of an instruction is the number
of bits that its bound fields cover. -/
theorem decode_earliest (s : InstructionSet) (word : Value) :
    (s.decode word = none ↔ ∀ i ∈ s.instructions, i.pattern.accepts word = false) ∧
      (∀ i, s.decode word = some i ↔
        ∃ before after, s.instructions = before ++ i :: after ∧ i.pattern.accepts word = true ∧
          (∀ j ∈ before, j.pattern.accepts word = true →
            j.pattern.specificity < i.pattern.specificity) ∧
          ∀ j ∈ after, j.pattern.accepts word = true →
            j.pattern.specificity ≤ i.pattern.specificity) ∧
      ∀ i ∈ s.instructions, i.encoding.covered.encard = i.pattern.specificity := by
  refine ⟨decode_eq_none_iff, fun i => ?_, fun i _ => i.encoding.encard_covered⟩
  rw [decode, Instruction.mostSpecific?_eq_some_iff, candidates]
  exact Instruction.leads_filter_iff

end InstructionSet

/-- An instruction of the byte whose fields share bits. -/
def Instruction.staggered (name : String) (assignments : List Encoding.Assignment) : Instruction :=
  ⟨.ofParts [name], .built (.ofParts [name, "encoding"]) ⟨0, .staggered⟩ assignments⟩

def Instruction.both : Instruction :=
  staggered "BOTH" [.integer "a" 0b1111, .integer "b" 0b1100]

def Instruction.low : Instruction :=
  staggered "LOW" [.integer "b" 0b1101]

def Instruction.high : Instruction :=
  staggered "HIGH" [.integer "a" 0b1111]

def InstructionSet.bothLowHigh : List (Registration fun _ => Format.staggered) :=
  [.format 0, .instruction .both rfl, .instruction .low rfl, .instruction .high rfl]

/-- The first instruction fixes most bits but does not accept the word 0xF4; the two others do, and
fix four bits each. The bound fields of the first one have eight bits in all and cover six. -/
theorem InstructionSet.decode_earliest_bothLowHigh :
    (built (.ofParts ["Tiny"]) bothLowHigh).instructions =
        [Instruction.both, Instruction.low, Instruction.high] ∧
      (built (.ofParts ["Tiny"]) bothLowHigh).decode (.wrap (.bits 8) 0xF4) =
        some Instruction.low ∧
      Instruction.both.encoding.covered.encard = 6 := by
  obtain ⟨_, decoded, specific⟩ :=
    decode_earliest (built (.ofParts ["Tiny"]) bothLowHigh) (.wrap (.bits 8) 0xF4)
  refine ⟨rfl, (decoded Instruction.low).mpr
    ⟨[Instruction.both], [Instruction.high], rfl, rfl, ?_, ?_⟩, ?_⟩
  · exact List.forall_mem_singleton.mpr nofun
  · exact List.forall_mem_singleton.mpr fun _ => Nat.le_refl 4
  · exact specific Instruction.both List.mem_cons_self

end MachineDescription
