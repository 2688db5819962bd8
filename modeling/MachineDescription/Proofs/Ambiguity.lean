import MachineDescription.Proofs.AcceptedWords
import MachineDescription.Proofs.FindingRules

namespace MachineDescription

/-- The verifier compares each element with those behind it, so a pair stands for two places of the
list. -/
theorem mem_pairs_iff {α : Type} {l : List α} {a b : α} :
    (a, b) ∈ pairs l ↔ ∃ m n : Nat, m < n ∧ l[m]? = some a ∧ l[n]? = some b := by
  induction l with
  | nil => simp [pairs]
  | cons c rest ih =>
    simp only [pairs, List.mem_append, List.mem_map, Prod.mk.injEq, ih]
    constructor
    · rintro (⟨other, member, rfl, rfl⟩ | ⟨m, n, ordered, atM, atN⟩)
      · obtain ⟨n, atN⟩ := List.mem_iff_getElem?.mp member
        exact ⟨0, n + 1, n.succ_pos, rfl, atN⟩
      · exact ⟨m + 1, n + 1, Nat.succ_lt_succ ordered, atM, atN⟩
    · rintro ⟨m, n, ordered, atM, atN⟩
      cases n with
      | zero => omega
      | succ n =>
        cases m with
        | zero => exact Or.inl ⟨b, List.mem_of_getElem? atN, Option.some.inj atM, rfl⟩
        | succ m => exact Or.inr ⟨m, n, Nat.lt_of_succ_lt_succ ordered, atM, atN⟩

/-- The last occurrence of a character splits a text in one way. -/
theorem append_cons_inj {a b p q : List Char} {c : Char} (left : c ∉ p) (right : c ∉ q)
    (same : a ++ c :: p = b ++ c :: q) : a = b := by
  rcases List.append_eq_append_iff.mp same with ⟨gap, rfl, rest⟩ | ⟨gap, rfl, rest⟩
  · cases gap with
    | nil => rw [List.append_nil]
    | cons first gap =>
      obtain ⟨_, rfl⟩ := List.cons.inj rest
      exact absurd (List.mem_append_right gap List.mem_cons_self) left
  · cases gap with
    | nil => rw [List.append_nil]
    | cons first gap =>
      obtain ⟨_, rfl⟩ := List.cons.inj rest
      exact absurd (List.mem_append_right gap List.mem_cons_self) right

namespace Pattern

/-- The patterns have a common word, and neither accepts less than the other. -/
def Ambiguous (p q : Pattern) : Prop :=
  (p.words ∩ q.words).Nonempty ∧ ¬p.words ⊂ q.words ∧ ¬q.words ⊂ p.words

/-- The two tests of the verifier, overlap and refinement, together say what ambiguity means for
words. -/
theorem ambiguous_iff {p q : Pattern} : p.Ambiguous q ↔ p.overlaps q = true ∧ ¬p.Comparable q := by
  rw [overlaps_iff_inter, Ambiguous]
  refine and_congr_right fun common => ?_
  have turned : (q.words ∩ p.words).Nonempty := Set.inter_comm _ _ ▸ common
  rw [words_ssubset_iff common, words_ssubset_iff turned, ← not_or]
  exact not_congr Or.comm

/-- The text of a pattern has no blank in it. -/
theorem blank_not_mem_render (p : Pattern) : ' ' ∉ p.render.toList := by
  intro member
  rw [render, String.toList_ofList] at member
  obtain ⟨index, _, shown⟩ := List.mem_map.mp member
  unfold symbol at shown
  split at shown
  · split at shown
    · exact absurd shown (by decide)
    · exact absurd shown (by decide)
  · exact absurd shown (by decide)

end Pattern

namespace Instruction

theorem refines_iff_comparable {p q : Pattern} : refines p q = true ↔ p.Comparable q := by
  refine ⟨comparable_of_refines, fun comparable => ?_⟩
  have different := comparable.specificity_ne
  simp only [refines, Bool.and_eq_true, Bool.or_eq_true, beq_iff_eq, bne_iff_ne]
  refine ⟨?_, different⟩
  rcases comparable with smaller | larger
  · exact Or.inl (Pattern.and_mask_eq_left_iff.mpr smaller.subset)
  · rw [Nat.and_comm]
    exact Or.inr (Pattern.and_mask_eq_left_iff.mpr larger.subset)

/-- Exactly the ambiguous pairs are reported, each with the one report that names both. -/
theorem ambiguity?_eq_some_iff {i j : Instruction} {d : Diagnostic} :
    i.ambiguity? j = some d ↔ i.pattern.Ambiguous j.pattern ∧ d = i.ambiguity j := by
  have condition : (i.pattern.overlaps j.pattern && !refines i.pattern j.pattern) = true ↔
      i.pattern.Ambiguous j.pattern := by
    rw [Bool.and_eq_true, Bool.not_eq_true', Bool.eq_false_iff, ne_eq, refines_iff_comparable,
      Pattern.ambiguous_iff]
  rw [← condition]
  unfold ambiguity?
  split
  · rename_i ambiguous
    rw [Option.some.injEq, and_iff_right ambiguous]
    exact eq_comm
  · rename_i clear
    exact ⟨fun report => (nomatch report), fun report => absurd report.1 clear⟩

/-- Besides ambiguous pairs only instructions without a fixed bit are reported. -/
theorem mem_findings_iff {instructions : List Instruction} {d : Diagnostic} :
    d ∈ findings instructions ↔
      (∃ i ∈ instructions, i.emptyFinding? = some d) ∨
        ∃ i j, (i, j) ∈ pairs instructions ∧ i.ambiguity? j = some d := by
  induction instructions with
  | nil => simp [findings, pairs]
  | cons i rest ih =>
    simp only [findings, pairs, List.mem_append, Option.mem_toList,
      List.mem_filterMap, List.mem_map, Prod.mk.injEq, ih, List.mem_cons]
    constructor
    · rintro ((empty | ⟨j, later, report⟩) | ⟨j, inside, empty⟩ | ⟨j, k, pair, report⟩)
      · exact Or.inl ⟨i, Or.inl rfl, empty⟩
      · exact Or.inr ⟨i, j, Or.inl ⟨j, later, rfl, rfl⟩, report⟩
      · exact Or.inl ⟨j, Or.inr inside, empty⟩
      · exact Or.inr ⟨j, k, Or.inr pair, report⟩
    · rintro (⟨j, rfl | inside, empty⟩ | ⟨j, _, ⟨k, later, rfl, rfl⟩ | pair, report⟩)
      · exact Or.inl (Or.inl empty)
      · exact Or.inr (Or.inl ⟨j, inside, empty⟩)
      · exact Or.inl (Or.inr ⟨k, later, report⟩)
      · exact Or.inr (Or.inr ⟨j, _, pair, report⟩)

/-- The name of the first instruction stands between fixed words and the text of a pattern. -/
theorem name_of_ambiguity {i i' j : Instruction}
    (same : (i.ambiguity j).message = (i'.ambiguity j).message) :
    i.name.qualified = i'.name.qualified := by
  have texts := congrArg String.toList same
  simp only [ambiguity, Diagnostic.finding, String.toList_append, List.append_assoc,
    List.append_cancel_left_eq] at texts
  have quote : (toString "' ").toList = "'".toList ++ [' '] := by decide
  simp only [← List.append_assoc, List.append_cancel_right_eq, quote] at texts
  simp only [List.append_assoc _ [' '], List.singleton_append] at texts
  have names := append_cons_inj i.pattern.blank_not_mem_render i'.pattern.blank_not_mem_render texts
  exact String.toList_inj.mp (List.append_cancel_right names)

end Instruction

namespace InstructionSet

variable {s : InstructionSet}

theorem NamesDistinct.eq_of_name (distinct : s.NamesDistinct) {i j : Instruction}
    (inI : i ∈ s.instructions) (inJ : j ∈ s.instructions)
    (same : i.name.qualified = j.name.qualified) : i = j := by
  have foundI := (distinct.findsByName.instruction _ i).mpr ⟨inI, same⟩
  have foundJ := (distinct.findsByName.instruction _ j).mpr ⟨inJ, rfl⟩
  exact Option.some.inj (foundI.symm.trans foundJ)

theorem mem_of_mem_pairs {i j : Instruction} (pair : (i, j) ∈ pairs s.instructions) :
    i ∈ s.instructions ∧ j ∈ s.instructions := by
  obtain ⟨m, n, _, atM, atN⟩ := mem_pairs_iff.mp pair
  exact ⟨List.mem_of_getElem? atM, List.mem_of_getElem? atN⟩

/-- A report names the later instruction as its subject and the earlier one in its text. -/
theorem NamesDistinct.eq_of_ambiguity (distinct : s.NamesDistinct) {i j i' j' : Instruction}
    (pair : (i, j) ∈ pairs s.instructions) (pair' : (i', j') ∈ pairs s.instructions)
    (same : i.ambiguity j = i'.ambiguity j') : i = i' ∧ j = j' := by
  obtain ⟨inI, inJ⟩ := mem_of_mem_pairs pair
  obtain ⟨inI', inJ'⟩ := mem_of_mem_pairs pair'
  have subject := Option.some.inj (congrArg Diagnostic.definition same)
  obtain rfl := distinct.eq_of_name inJ inJ' subject
  have text := Instruction.name_of_ambiguity (congrArg Diagnostic.message same)
  exact ⟨distinct.eq_of_name inI inI' text, rfl⟩

/-- Only pairs of instructions are reported as ambiguous. -/
theorem mem_reported_ambiguous_iff {d : Diagnostic}
    (rule : d.origin = .verification .ambiguousEncoding) :
    d ∈ s.reported ↔
      ∃ i j, (i, j) ∈ pairs s.instructions ∧ i.pattern.Ambiguous j.pattern ∧
        d = i.ambiguity j := by
  have severe : d.isError = true := by
    rw [Diagnostic.isError, Diagnostic.level, rule]
    rfl
  have other : ∀ rules : List Rule, .ambiguousEncoding ∉ rules → ¬d.Under rules := by
    rintro rules unlisted ⟨found, listed, origin⟩
    cases rule.symm.trans origin
    exact unlisted listed
  rw [mem_reported_iff severe]
  constructor
  · intro found
    rcases findings_under found with inside | elsewhere
    · rcases Instruction.mem_findings_iff.mp inside with ⟨i, _, empty⟩ | ⟨i, j, pair, report⟩
      · exact absurd (Instruction.emptyFinding?_under empty) (other _ (by decide))
      · obtain ⟨ambiguous, text⟩ := Instruction.ambiguity?_eq_some_iff.mp report
        exact ⟨i, j, pair, ambiguous, text⟩
    · exact absurd elsewhere (other _ (by decide))
  · rintro ⟨i, j, pair, ambiguous, text⟩
    have report := Instruction.ambiguity?_eq_some_iff.mpr ⟨ambiguous, text⟩
    have inside := Instruction.mem_findings_iff.mpr (Or.inr ⟨i, j, pair, report⟩)
    exact mem_findings.mpr (.inr (.inr (.inr (.inr inside))))

variable {declared : Nat → Format}

/-- Whatever was registered, an instruction and a later one are reported as ambiguous exactly if
some word belongs to both and the words of neither are a strict part of the other's. Nothing else is
reported under this rule. Comparing masks and bits tells whether two patterns have a common word. -/
theorem ambiguity_reported_iff (name : Name) (requests : List (Request declared)) :
    (∀ (m n : Nat) (i j : Instruction), m < n →
      (carriedOut name requests).instructions[m]? = some i →
      (carriedOut name requests).instructions[n]? = some j →
      (i.ambiguity j ∈ (carriedOut name requests).reported ↔
        (i.pattern.words ∩ j.pattern.words).Nonempty ∧
          ¬i.pattern.words ⊂ j.pattern.words ∧ ¬j.pattern.words ⊂ i.pattern.words)) ∧
      (∀ d ∈ (carriedOut name requests).reported, d.origin = .verification .ambiguousEncoding →
        ∃ (m n : Nat) (i j : Instruction), m < n ∧
          (carriedOut name requests).instructions[m]? = some i ∧
          (carriedOut name requests).instructions[n]? = some j ∧ d = i.ambiguity j) ∧
      ∀ e f : Encoding, e.pattern.overlaps f.pattern = true ↔
        ∃ word, e.pattern.accepts word = true ∧ f.pattern.accepts word = true := by
  have distinct := namesDistinct_carriedOut name requests
  refine ⟨fun m n i j ordered atM atN => ?_, fun d found rule => ?_,
    fun e f => Pattern.overlaps_iff_inter⟩
  · have pair := mem_pairs_iff.mpr ⟨m, n, ordered, atM, atN⟩
    rw [mem_reported_ambiguous_iff rfl]
    constructor
    · rintro ⟨i', j', pair', ambiguous, same⟩
      obtain ⟨rfl, rfl⟩ := distinct.eq_of_ambiguity pair pair' same
      exact ambiguous
    · intro ambiguous
      exact ⟨i, j, pair, ambiguous, rfl⟩
  · obtain ⟨i, j, pair, _, report⟩ := (mem_reported_ambiguous_iff rule).mp found
    obtain ⟨m, n, ordered, atM, atN⟩ := mem_pairs_iff.mp pair
    exact ⟨m, n, i, j, ordered, atM, atN, report⟩

end InstructionSet

/-- An instruction for register 2, whatever the operation. -/
def Instruction.second : Instruction :=
  ⟨.ofParts ["SECOND"], .built (.ofParts ["SECOND", "encoding"]) ⟨0, .nibbles⟩ [.integer "reg" 2]⟩

/-- An instruction, one that refines it, and one that meets only the first. -/
def InstructionSet.incrementOrSecond : List (Request fun _ => Format.nibbles) :=
  incrementOrRest.map .register ++ [.register (.instruction .second rfl)]

/-- The word 0x12 belongs to both instructions, 0x10 to the first only and 0x02 to the second. -/
theorem InstructionSet.incrementOrSecond_reported :
    (carriedOut (.ofParts ["Tiny"]) incrementOrSecond).instructions[0]? =
        some Instruction.increment ∧
      (carriedOut (.ofParts ["Tiny"]) incrementOrSecond).instructions[2]? =
        some Instruction.second ∧
      Instruction.increment.ambiguity Instruction.second ∈
        (carriedOut (.ofParts ["Tiny"]) incrementOrSecond).reported := by
  refine ⟨rfl, rfl, ((ambiguity_reported_iff (.ofParts ["Tiny"]) incrementOrSecond).1 0 2 _ _
    (by decide) rfl rfl).mpr ⟨⟨.wrap (.bits 8) 0x12, rfl, rfl⟩, fun less => ?_, fun less => ?_⟩⟩
  · have first : Value.wrap (.bits 8) 0x10 ∈ Instruction.increment.pattern.words := rfl
    exact Bool.false_ne_true (less.subset first)
  · have later : Value.wrap (.bits 8) 0x02 ∈ Instruction.second.pattern.words := rfl
    exact Bool.false_ne_true (less.subset later)

end MachineDescription
