import MachineDescription.Name
import MachineDescription.Proofs.LiteralGrammar

namespace MachineDescription

namespace Text

theorem ends_of_trim {text : List Char} (same : trim text = text) :
    (∀ c ∈ text.head?, isBlank c = false) ∧ ∀ c ∈ text.getLast?, isBlank c = false := by
  have trimmed := trimmed_trim text
  rw [same] at trimmed
  exact ⟨trimmed.first, trimmed.last⟩

theorem isInfix_trim (text : List Char) : trim text <:+: text := by
  obtain ⟨before, after, whole, _⟩ := (trimmed_trim text).framed
  exact ⟨before, after, by rw [List.append_assoc, ← whole]⟩

end Text

namespace Name

/-- There is no double colon in a text. -/
def Unbroken (text : List Char) : Prop :=
  ¬[':', ':'] <:+: text

theorem Unbroken.mono {part text : List Char} (whole : Unbroken text) (inside : part <:+: text) :
    Unbroken part :=
  fun colons => whole (colons.trans inside)

theorem unbroken_cons_iff {c : Char} {text : List Char} :
    Unbroken (c :: text) ↔ ¬(c = ':' ∧ text.head? = some ':') ∧ Unbroken text := by
  have start : [':', ':'] <+: c :: text ↔ c = ':' ∧ text.head? = some ':' := by
    cases text with
    | nil => simp
    | cons d rest => simp [eq_comm]
  rw [Unbroken, List.infix_cons_iff, not_or, start]
  rfl

theorem splitScopes_cons {c : Char} {tail first : List Char} {pieces : List (List Char)}
    (other : ¬(c = ':' ∧ tail.head? = some ':')) (later : splitScopes tail = first :: pieces) :
    splitScopes (c :: tail) = (c :: first) :: pieces := by
  rw [splitScopes, later]
  rintro rest rfl rfl
  exact other ⟨rfl, rfl⟩

theorem unbroken_nil : Unbroken [] :=
  fun colons => absurd (List.eq_nil_of_infix_nil colons) (List.cons_ne_nil _ _)

/-- There is always a piece. The first one begins like the text, if it is not empty, so a colon put
in front of it makes no double colon unless it makes one in the text. -/
theorem splitScopes_spec (text : List Char) :
    ∃ first pieces, splitScopes text = first :: pieces ∧
      (∀ c, first.head? = some c → text.head? = some c) ∧
      ∀ piece ∈ first :: pieces, Unbroken piece := by
  fun_induction splitScopes text with
  | case1 => exact ⟨[], [], rfl, nofun, List.forall_mem_singleton.mpr unbroken_nil⟩
  | case2 rest ih =>
    obtain ⟨first, pieces, split, _, unbroken⟩ := ih
    exact ⟨[], _, rfl, nofun, List.forall_mem_cons.mpr ⟨unbroken_nil, split ▸ unbroken⟩⟩
  | case3 c rest _ none ih =>
    obtain ⟨first, pieces, split, _⟩ := ih
    rw [none] at split
    cases split
  | case4 c rest other first pieces split ih =>
    obtain ⟨first', pieces', split', begins, unbroken⟩ := ih
    obtain ⟨rfl, rfl⟩ := List.cons.inj (split.symm.trans split')
    obtain ⟨wholeFirst, later⟩ := List.forall_mem_cons.mp unbroken
    refine ⟨c :: first, pieces, rfl, fun d same => same, List.forall_mem_cons.mpr ⟨?_, later⟩⟩
    refine unbroken_cons_iff.mpr ⟨?_, wholeFirst⟩
    rintro ⟨rfl, next⟩
    obtain ⟨tail, rest⟩ := List.head?_eq_some_iff.mp (begins ':' next)
    exact other tail rfl rest

/-- A text without a double colon goes to the first piece of what follows it, as long as the two do
not make a double colon where they meet. -/
theorem splitScopes_append {text tail first : List Char} {pieces : List (List Char)}
    (whole : Unbroken text) (apart : text.getLast? = some ':' → tail.head? ≠ some ':')
    (later : splitScopes tail = first :: pieces) :
    splitScopes (text ++ tail) = (text ++ first) :: pieces := by
  induction text with
  | nil => exact later
  | cons c rest ih =>
    obtain ⟨clear, wholeRest⟩ := unbroken_cons_iff.mp whole
    refine splitScopes_cons ?_ (ih wholeRest fun last => apart ?_)
    · rintro ⟨rfl, next⟩
      cases rest with
      | nil => exact apart rfl next
      | cons d rest => exact clear ⟨rfl, next⟩
    · rw [List.getLast?_cons, last]
      rfl

theorem splitScopes_of_unbroken {text : List Char} (whole : Unbroken text) :
    splitScopes text = [text] := by
  have nothing : splitScopes [] = [[]] := rfl
  have ended : ([] : List Char).head? ≠ some ':' := (Option.some_ne_none _).symm
  have alone := splitScopes_append whole (fun _ => ended) nothing
  rwa [List.append_nil] at alone

theorem toList_cleanPart (part : String) : (cleanPart part).toList = cleaned part.toList :=
  String.toList_ofList

theorem isSuffix_dropDot (text : List Char) : dropDot text <:+ text := by
  unfold dropDot
  split
  · exact List.suffix_cons _ _
  · exact List.suffix_rfl

theorem dropDot_eq_self_iff {text : List Char} : dropDot text = text ↔ text.head? ≠ some '.' := by
  unfold dropDot
  split
  · simp
  · rename_i other
    refine iff_of_true rfl fun dot => ?_
    obtain ⟨rest, rfl⟩ := List.head?_eq_some_iff.mp dot
    exact other rest rfl

/-- Neither end of a text is a blank or a dot. -/
def Settled (text : List Char) : Prop :=
  ∀ c, text.head? = some c ∨ text.getLast? = some c → Text.isBlank c = false ∧ c ≠ '.'

/-- Blanks are taken away first, then a dot from each side, so cleaning may leave a dot or a blank.
-/
theorem isInfix_cleaned_trim (text : List Char) : cleaned text <:+: Text.trim text := by
  have back := List.reverse_prefix.mpr (isSuffix_dropDot (dropDot (Text.trim text)).reverse)
  rw [List.reverse_reverse] at back
  exact back.isInfix.trans (isSuffix_dropDot _).isInfix

theorem isInfix_cleaned (text : List Char) : cleaned text <:+: text :=
  (isInfix_cleaned_trim text).trans (Text.isInfix_trim text)

/-- No step of cleaning makes a text longer, so if nothing is gone at the end, no step took
anything. -/
theorem steps_of_cleaned {text : List Char} (same : cleaned text = text) :
    Text.trim text = text ∧ dropDot text = text ∧ dropDot text.reverse = text.reverse := by
  have untrimmed : Text.trim text = text := by
    have shorter := (isInfix_cleaned_trim text).length_le
    rw [same] at shorter
    exact (Text.isInfix_trim text).eq_of_length_le shorter
  rw [cleaned, untrimmed] at same
  have front : dropDot text = text := by
    have shorter := (isSuffix_dropDot (dropDot text).reverse).length_le
    rw [← List.length_reverse, same, List.length_reverse] at shorter
    exact (isSuffix_dropDot text).eq_of_length_le shorter
  rw [front] at same
  exact ⟨untrimmed, front, List.reverse_eq_iff.mp same⟩

theorem cleaned_eq_self_iff {text : List Char} : cleaned text = text ↔ Settled text := by
  constructor
  · intro same
    obtain ⟨untrimmed, front, back⟩ := steps_of_cleaned same
    obtain ⟨first, last⟩ := Text.ends_of_trim untrimmed
    rintro c (start | finish)
    · refine ⟨first c start, ?_⟩
      rintro rfl
      exact dropDot_eq_self_iff.mp front start
    · refine ⟨last c finish, ?_⟩
      rintro rfl
      exact dropDot_eq_self_iff.mp back (List.head?_reverse.trans finish)
  · intro settled
    have untrimmed : Text.trim text = text :=
      Text.trim_of_ends (fun c first => (settled c (Or.inl first)).1)
        fun c last => (settled c (Or.inr last)).1
    have front : dropDot text = text :=
      dropDot_eq_self_iff.mpr fun dot => (settled _ (Or.inl dot)).2 rfl
    have back : dropDot text.reverse = text.reverse := by
      refine dropDot_eq_self_iff.mpr fun dot => (settled _ (Or.inr ?_)).2 rfl
      rwa [← List.head?_reverse]
    rw [cleaned, untrimmed, front, back, List.reverse_reverse]

theorem splitScopes_colons (text : List Char) :
    splitScopes (':' :: ':' :: text) = [] :: splitScopes text := rfl

/-- A part that does not end with a colon is split off where it was joined. -/
theorem splitScopes_joined {part : List Char} (whole : Unbroken part)
    (separate : part.getLast? ≠ some ':') (rest : List Char) :
    splitScopes (part ++ ':' :: ':' :: rest) = part :: splitScopes rest := by
  have split := splitScopes_append whole (fun last => absurd last separate)
    (splitScopes_colons rest)
  rwa [List.append_nil] at split

/-- From a part that ends with a colon this colon is taken, as the first of three. -/
theorem splitScopes_joined_colon {part : List Char} (whole : Unbroken (part ++ [':']))
    (rest : List Char) :
    splitScopes (part ++ [':'] ++ ':' :: ':' :: rest) = part :: splitScopes (':' :: rest) := by
  have single : part.getLast? ≠ some ':' := by
    intro last
    obtain ⟨before, rfl⟩ := List.getLast?_eq_some_iff.mp last
    exact whole ⟨before, [], by simp⟩
  have inner : Unbroken part := whole.mono (List.prefix_append part [':']).isInfix
  rw [List.append_assoc]
  exact splitScopes_joined inner single (':' :: rest)

/-- Joined parts are found again by splitting and cleaning exactly if there is nothing to clean and
no part but the last ends with a colon. -/
theorem splitScopes_intercalate_iff {parts : List (List Char)} (nonempty : parts ≠ [])
    (whole : ∀ part ∈ parts, Unbroken part) :
    (splitScopes ([':', ':'].intercalate parts)).map cleaned = parts ↔
      (∀ part ∈ parts, Settled part) ∧ ∀ part ∈ parts.dropLast, part.getLast? ≠ some ':' := by
  induction parts with
  | nil => exact absurd rfl nonempty
  | cons part rest ih =>
    obtain ⟨wholePart, wholeRest⟩ := List.forall_mem_cons.mp whole
    cases rest with
    | nil =>
      rw [List.intercalate_singleton, splitScopes_of_unbroken wholePart]
      simp [cleaned_eq_self_iff]
    | cons next rest =>
      have joined : [':', ':'].intercalate (part :: next :: rest) =
          part ++ ':' :: ':' :: [':', ':'].intercalate (next :: rest) := by
        simp [List.intercalate_cons_cons]
      have settled : (∀ p ∈ part :: next :: rest, Settled p) ↔
          Settled part ∧ ∀ p ∈ next :: rest, Settled p := List.forall_mem_cons
      have ends : (∀ p ∈ (part :: next :: rest).dropLast, p.getLast? ≠ some ':') ↔
          part.getLast? ≠ some ':' ∧ ∀ p ∈ (next :: rest).dropLast, p.getLast? ≠ some ':' :=
        List.forall_mem_cons
      rw [joined, settled, ends]
      by_cases colon : part.getLast? = some ':'
      · obtain ⟨before, rfl⟩ := List.getLast?_eq_some_iff.mp colon
        rw [splitScopes_joined_colon wholePart]
        refine iff_of_false (fun same => ?_) fun valid => valid.2.1 colon
        -- what is split off first is shorter than the part, and cleaning makes nothing longer
        have first := (List.cons.inj same).1
        have shorter := (isInfix_cleaned before).length_le
        rw [first, List.length_append, List.length_singleton] at shorter
        omega
      · have separate : part.getLast? ≠ some ':' := colon
        rw [splitScopes_joined wholePart separate, List.map_cons, List.cons.injEq,
          ih (List.cons_ne_nil _ _) wholeRest, cleaned_eq_self_iff, and_iff_right separate,
          and_assoc]

/-- The parts of a name that was read are the cleaned pieces of the text. -/
theorem toList_parts_parse (text : String) :
    (parse text).parts.map String.toList = (splitScopes text.toList).map cleaned := by
  simp only [parse, ofParts, List.map_map]
  refine List.map_congr_left fun piece _ => ?_
  simp only [Function.comp_apply, toList_cleanPart, String.toList_ofList]

theorem parts_parse_ne_nil (text : String) : (parse text).parts.map String.toList ≠ [] := by
  obtain ⟨first, later, split, _⟩ := splitScopes_spec text.toList
  rw [toList_parts_parse, split]
  exact List.cons_ne_nil _ _

/-- No part of a name that was read has a double colon in it. -/
theorem unbroken_parts_parse (text : String) :
    ∀ part ∈ (parse text).parts.map String.toList, Unbroken part := by
  obtain ⟨first, later, split, _, unbroken⟩ := splitScopes_spec text.toList
  rw [toList_parts_parse, split]
  intro part member
  obtain ⟨piece, inside, rfl⟩ := List.mem_map.mp member
  exact (unbroken piece inside).mono (isInfix_cleaned piece)

/-- Reading the text of a name again gives the name exactly if none of its parts begins or ends with
a blank or a dot and none but the last ends with a colon. -/
theorem parse_qualified_iff (text : String) :
    (parse (parse text).qualified == parse text) = true ↔
      (∀ part ∈ (parse text).parts, ∀ c,
        part.toList.head? = some c ∨ part.toList.getLast? = some c →
          Text.isBlank c = false ∧ c ≠ '.') ∧
      ∀ part ∈ (parse text).parts.dropLast, part.toList.getLast? ≠ some ':' := by
  have shown : (parse text).qualified.toList =
      [':', ':'].intercalate ((parse text).parts.map String.toList) :=
    String.toList_intercalate
  have stable := splitScopes_intercalate_iff (parts_parse_ne_nil text) (unbroken_parts_parse text)
  rw [← shown, ← toList_parts_parse, ← List.map_dropLast, List.forall_mem_map, List.forall_mem_map]
    at stable
  rw [beq_iff]
  exact (List.map_inj_right fun _ _ => String.toList_inj.mp).symm.trans stable

/-- A blank behind a dot, the second of two dots and a colon before a dot are left by cleaning. The
text of each of these names is read as another name. -/
theorem uncleaned_names_change :
    ((parse ". X").parts = [" X"] ∧ (parse (parse ". X").qualified == parse ". X") = false) ∧
    ((parse "..X").parts = [".X"] ∧ (parse (parse "..X").qualified == parse "..X") = false) ∧
    (parse ":.::X").parts = [":", "X"] ∧
      (parse (parse ":.::X").qualified == parse ":.::X") = false := by
  decide

end Name

end MachineDescription
