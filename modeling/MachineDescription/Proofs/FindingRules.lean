import MachineDescription.Proofs.Decoding

namespace MachineDescription

namespace Diagnostic

/-- A finding of the verifier under one of the rules. -/
def Under (d : Diagnostic) (rules : List Rule) : Prop :=
  ∃ rule ∈ rules, d.origin = .verification rule

theorem under_finding {rule : Rule} {rules : List Rule} (listed : rule ∈ rules) (message : String)
    (name : Name) : (finding rule message name).Under rules :=
  ⟨rule, listed, rfl⟩

theorem Under.mono {d : Diagnostic} {rules more : List Rule} (under : d.Under rules)
    (included : rules ⊆ more) : d.Under more := by
  obtain ⟨rule, listed, origin⟩ := under
  exact ⟨rule, included listed, origin⟩

end Diagnostic

/-- Each part of the verifier reports under rules of its own. -/
theorem Format.findings_under {f : Format} {d : Diagnostic} (found : d ∈ f.findings) :
    d.Under [.uncoveredBits, .overlappingFields] := by
  rcases List.mem_append.mp found with uncovered | overlap
  · obtain ⟨slice, _, rfl⟩ := List.mem_map.mp uncovered
    exact Diagnostic.under_finding (by decide) _ _
  · obtain ⟨pair, _, rfl⟩ := List.mem_map.mp overlap
    exact Diagnostic.under_finding (by decide) _ _

/-- Constraints are compared with the earlier ones, whichever these are. -/
theorem Tensor.constraintFindings_under {t : Tensor} {earlier constraints : List Constraint}
    {d : Diagnostic} (found : d ∈ t.constraintFindings earlier constraints) :
    d.Under [.duplicateConstraint, .conflictingConstraint] := by
  induction constraints generalizing earlier with
  | nil => cases found
  | cons constraint rest ih =>
    rcases List.mem_append.mp found with first | later
    · obtain ⟨other, _, rfl⟩ := Option.map_eq_some_iff.mp (Option.mem_toList.mp first)
      dsimp only
      split
      · exact Diagnostic.under_finding (by decide) _ _
      · exact Diagnostic.under_finding (by decide) _ _
    · exact ih later

theorem Instruction.emptyFinding?_under {i : Instruction} {d : Diagnostic}
    (found : i.emptyFinding? = some d) : d.Under [.emptyEncoding] := by
  unfold emptyFinding? at found
  split at found
  · cases found
    exact Diagnostic.under_finding (by decide) _ _
  · cases found

namespace InstructionSet

variable {s : InstructionSet} {d : Diagnostic}

/-- Register tensors are looked at for their constraints and artificial resources for what they
wrap. -/
theorem resourceFindings_under {r : Resource} (found : d ∈ s.resourceFindings r) :
    d.Under [.duplicateConstraint, .conflictingConstraint, .unknownInnerResource] := by
  cases r with
  | register tensor => exact (Tensor.constraintFindings_under found).mono (by decide)
  | artificial a =>
    obtain ⟨inner, _, report⟩ := Option.bind_eq_some_iff.mp (Option.mem_toList.mp found)
    split at report
    · cases report
    · cases report
      exact Diagnostic.under_finding (by decide) _ _
  | signal | memory => cases found

theorem counterFinding?_under {c : Counter} (found : s.counterFinding? c = some d) :
    d.Under [.unownedCounterResource] := by
  unfold counterFinding? at found
  split at found
  · cases found
  · cases found
    exact Diagnostic.under_finding (by decide) _ _

theorem conventionFindings_under {c : Convention} (found : d ∈ s.conventionFindings c) :
    d.Under [.unownedAbiRegister, .abiSavedTwice] := by
  rcases List.mem_append.mp found with used | saved
  · obtain ⟨use, _, report⟩ := List.mem_filterMap.mp used
    unfold useFinding? at report
    split at report
    · cases report
    · cases report
      exact Diagnostic.under_finding (by decide) _ _
  · obtain ⟨register, _, report⟩ := List.mem_filterMap.mp saved
    unfold savedFinding? at report
    split at report
    · cases report
      exact Diagnostic.under_finding (by decide) _ _
    · cases report

/-- What is not found on the instructions is found under another rule. -/
theorem findings_under (found : d ∈ s.findings) :
    d ∈ Instruction.findings s.instructions ∨
      d.Under [.uncoveredBits, .overlappingFields, .duplicateConstraint, .conflictingConstraint,
        .unknownInnerResource, .unownedCounterResource, .unownedAbiRegister, .abiSavedTwice] := by
  rcases mem_findings.mp found with ⟨f, _, inF⟩ | ⟨r, _, inR⟩ | ⟨c, _, ofC⟩ | ⟨c, _, inC⟩ | inI
  · exact Or.inr ((Format.findings_under inF).mono (by decide))
  · exact Or.inr ((resourceFindings_under inR).mono (by decide))
  · exact Or.inr ((counterFinding?_under ofC).mono (by decide))
  · exact Or.inr ((conventionFindings_under inC).mono (by decide))
  · exact Or.inl inI

/-- What the verifier reports, be it errors or warnings. -/
def reported (s : InstructionSet) : List Diagnostic :=
  match s.verify with
  | .ok warnings => warnings
  | .error errors => errors

/-- No error is held back. -/
theorem mem_reported_iff (severe : d.isError = true) : d ∈ s.reported ↔ d ∈ s.findings := by
  unfold reported verify
  dsimp only
  by_cases clean : (s.findings.filter (·.isError)).isEmpty = true
  · rw [if_pos clean]
  · rw [if_neg clean, List.mem_filter, and_iff_left severe]

end InstructionSet

end MachineDescription
