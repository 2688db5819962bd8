import MachineDescription.Encoding.Basic

namespace MachineDescription

theorem exists_ok_of_bind {ε α β : Type} {first : Except ε α} {next : α → Except ε β} {result : β}
    (ok : (first >>= next) = .ok result) : ∃ a, first = .ok a ∧ next a = .ok result := by
  cases first with
  | error e => cases ok
  | ok a => exact ⟨a, rfl, ok⟩

/-- If no two elements of a list pass a test, the first one found is any that passes. -/
theorem find?_eq_some_iff_of_unique {α : Type} {p : α → Bool} {items : List α} {a : α}
    (unique : ∀ b ∈ items, a ∈ items → p a = true → p b = true → b = a) :
    items.find? p = some a ↔ a ∈ items ∧ p a = true := by
  constructor
  · intro found
    exact ⟨List.mem_of_find?_eq_some found, List.find?_some found⟩
  · rintro ⟨member, passes⟩
    cases found : items.find? p with
    | none => exact absurd passes (List.find?_eq_none.mp found a member)
    | some b =>
      rw [unique b (List.mem_of_find?_eq_some found) member passes (List.find?_some found)]

theorem getElem?_snoc {α : Type} (items : List α) (last : α) (place : Nat) :
    (items ++ [last])[place]? = if place = items.length then some last else items[place]? := by
  split
  · rename_i atEnd
    rw [atEnd, List.getElem?_concat_length]
  · rename_i elsewhere
    rcases Nat.lt_or_gt_of_ne elsewhere with inside | beyond
    · exact List.getElem?_append_left inside
    · rw [List.getElem?_eq_none (by simp; omega), List.getElem?_eq_none (by omega)]

section Attempts

variable {State Call : Type}

/-- The result of calls one after the other. A call that fails leaves everything as it was, and the
calls after it go on from there. -/
def attempts (step : State → Call → Except Error State) (start : State) (calls : List Call) :
    State :=
  calls.foldl (fun state call => (step state call).toOption.getD state) start

/-- What every successful call keeps is kept by every sequence of calls. -/
theorem attempts_induction {step : State → Call → Except Error State} {Kept : State → Prop}
    (kept : ∀ before call after, Kept before → step before call = .ok after → Kept after)
    {start : State} (initial : Kept start) (calls : List Call) :
    Kept (attempts step start calls) := by
  induction calls generalizing start with
  | nil => exact initial
  | cons call rest ih =>
    refine ih ?_
    change Kept ((step start call).toOption.getD start)
    cases result : step start call with
    | error e => exact initial
    | ok after => exact kept start call after initial result

/-- The calls that succeed when all are carried out one after another. -/
def accepted (step : State → Call → Except Error State) (start : State) : List Call → List Call
  | [] => []
  | call :: rest =>
    match step start call with
    | .ok next => call :: accepted step next rest
    | .error _ => accepted step start rest

/-- What each successful call adds at the end of a list, all of them add in their order. -/
theorem attempts_collects {α : Type} {step : State → Call → Except Error State}
    {view : State → List α} {part : Call → Option α}
    (added : ∀ before call after, step before call = .ok after →
      view after = view before ++ (part call).toList) (start : State) (calls : List Call) :
    view (attempts step start calls) =
      view start ++ (accepted step start calls).filterMap part := by
  induction calls generalizing start with
  | nil => simp [attempts, accepted]
  | cons call rest ih =>
    change view (attempts step ((step start call).toOption.getD start) rest) = _
    rw [ih, accepted]
    cases result : step start call with
    | error e => rfl
    | ok after =>
      change view after ++ (accepted step after rest).filterMap part =
        view start ++ (call :: accepted step after rest).filterMap part
      rw [added start call after result, List.append_assoc]
      congr 1
      cases added : part call <;> simp [added]

/-- What holds after each successful call if it did before or the call adds it, holds in the end if
it did at the start or one of the calls has added it. -/
theorem attempts_iff {step : State → Call → Except Error State} {Holds : State → Prop}
    {Adds : Call → Prop}
    (added : ∀ before call after, step before call = .ok after →
      (Holds after ↔ Holds before ∨ Adds call)) (start : State) (calls : List Call) :
    Holds (attempts step start calls) ↔
      Holds start ∨ ∃ call ∈ accepted step start calls, Adds call := by
  induction calls generalizing start with
  | nil => simp [attempts, accepted]
  | cons call rest ih =>
    change Holds (attempts step ((step start call).toOption.getD start) rest) ↔ _
    rw [ih, accepted]
    cases result : step start call with
    | error e => rfl
    | ok after =>
      change Holds after ∨ (∃ later ∈ accepted step after rest, Adds later) ↔
        Holds start ∨ ∃ later ∈ call :: accepted step after rest, Adds later
      simp only [added start call after result, List.mem_cons, exists_eq_or_imp, or_assoc]

variable {σ : Type}

/-- What a call does to tables that stand for a definition. Either the definition refuses it, and
the call fails with the same error and leaves the tables as they were, or both carry it out, and the
tables stand for the new definition. -/
inductive Follows (StandsFor : σ → State → Prop) (tables : σ) :
    Except Error State → Except Error Unit × σ → Prop where
  | refused (e : Error) : Follows StandsFor tables (.error e) (.error e, tables)
  | made {next : σ} {state : State} (related : StandsFor next state) :
      Follows StandsFor tables (.ok state) (.ok (), next)

namespace Follows

variable {StandsFor : σ → State → Prop} {tables : σ} {state : State}
  {result : Except Error State} {outcome : Except Error Unit × σ}

theorem fst_eq (follows : Follows StandsFor tables result outcome) :
    outcome.1 = result.map fun _ => () := by
  cases follows <;> rfl

theorem fst_eq_ok_iff (follows : Follows StandsFor tables result outcome) :
    outcome.1 = .ok () ↔ ∃ state, result = .ok state := by
  cases follows with
  | refused e => exact iff_of_false nofun nofun
  | made _ => exact iff_of_true rfl ⟨_, rfl⟩

/-- Nothing that a failing call wrote is left behind. -/
theorem snd_of_error (follows : Follows StandsFor tables result outcome) {e : Error}
    (failed : outcome.1 = .error e) : outcome.2 = tables := by
  cases follows with
  | refused _ => rfl
  | made _ => cases failed

/-- After a call the tables stand for what it has made of the definition. -/
theorem related (follows : Follows StandsFor tables result outcome)
    (before : StandsFor tables state) : StandsFor outcome.2 (result.toOption.getD state) := by
  cases follows with
  | refused _ => exact before
  | made related => exact related

/-- Tables that follow every single call follow every sequence of calls, failing ones among them. -/
theorem foldl {step : State → Call → Except Error State} {carryOut : Call → Run σ Unit}
    (follows : ∀ tables state, StandsFor tables state →
      ∀ call, Follows StandsFor tables (step state call) ((carryOut call).run tables))
    (before : StandsFor tables state) (calls : List Call) :
    StandsFor (calls.foldl (fun tables call => ((carryOut call).run tables).2) tables)
      (attempts step state calls) := by
  induction calls generalizing tables state with
  | nil => exact before
  | cons call rest ih => exact ih ((follows tables state before call).related before)

end Follows

end Attempts

/-- A member to declare in a format. -/
inductive Format.Declaration where
  | field (label : String) (slice : Slice) (ty : DataType)
  | bits (label : String) (msb lsb : Nat)
  | access (label : String) (decoder encoder : Function) (predicate : Option Function)

/-- A constant to bind to a field. -/
inductive Encoding.Assignment where
  | value (label : String) (v : Value)
  | integer (label : String) (n : Int)

namespace Format

def declare (f : Format) : Declaration → Except Error Format
  | .field label slice ty => f.addField label slice ty
  | .bits label msb lsb => f.addBits label msb lsb
  | .access label decoder encoder predicate => f.addAccess label decoder encoder predicate

/-- The format of a sequence of declarations. -/
def built (name : Name) (width : Nat) (declarations : List Declaration) : Format :=
  attempts declare (empty name width) declarations

end Format

namespace Encoding

def assign (e : Encoding) : Assignment → Except Error Encoding
  | .value label v => e.bind label v
  | .integer label n => e.bindInteger label n

/-- The encoding of a sequence of bindings. -/
def built (name : Name) (format : Declared Format) (assignments : List Assignment) : Encoding :=
  attempts assign (empty name format) assignments

theorem format_of_bind {e e' : Encoding} {label : String} {v : Value}
    (bound : e.bind label v = .ok e') : e'.format = e.format := by
  unfold bind at bound
  split at bound
  · cases bound
  · split at bound
    · cases bound
    · split at bound
      · split at bound
        · cases bound
        · cases bound
          rfl
      · cases bound

theorem format_of_assign {e e' : Encoding} {assignment : Assignment}
    (bound : e.assign assignment = .ok e') : e'.format = e.format := by
  cases assignment with
  | value label v => exact format_of_bind bound
  | integer label n =>
    change e.bindInteger label n = .ok e' at bound
    unfold bindInteger at bound
    split at bound
    · cases bound
    · split at bound
      · exact format_of_bind bound
      · cases bound

end Encoding

end MachineDescription
