import MachineDescription.Proofs.Evaluation
import MachineDescription.Proofs.IntegerRange

namespace MachineDescription

/-- Whatever error the computation ends with has the property. -/
def FailsOnly {α : Type} (p : Error → Prop) (x : Except Error α) : Prop :=
  ∀ err, x = .error err → p err

namespace FailsOnly

variable {α β : Type} {p : Error → Prop}

theorem ok (a : α) : FailsOnly p (.ok a) :=
  fun _ failed => nomatch failed

theorem mono {q : Error → Prop} {x : Except Error α} (fails : FailsOnly p x)
    (weaker : ∀ err, p err → q err) : FailsOnly q x :=
  fun err failed => weaker err (fails err failed)

/-- The second step may use that the first has succeeded. -/
theorem bind {x : Except Error α} {f : α → Except Error β} (first : FailsOnly p x)
    (next : ∀ a, x = .ok a → FailsOnly p (f a)) : FailsOnly p (x >>= f) := by
  cases x with
  | error err =>
    rintro _ ⟨⟩
    exact first err rfl
  | ok a => exact next a rfl

theorem map {x : Except Error α} (f : α → β) (first : FailsOnly p x) : FailsOnly p (x.map f) := by
  cases x with
  | error err =>
    rintro _ ⟨⟩
    exact first err rfl
  | ok a => exact ok (f a)

end FailsOnly

namespace Run

variable {σ α β : Type} {p : Error → Prop}

/-- Whatever error the run ends with, from whatever state, has the property. -/
def FailsOnly (p : Error → Prop) (x : Run σ α) : Prop :=
  ∀ s, MachineDescription.FailsOnly p (x.run s).1

namespace FailsOnly

theorem pure (a : α) : FailsOnly p (pure a : Run σ α) :=
  fun _ => .ok a

theorem throw {err : Error} (allowed : p err) : FailsOnly p (throw err : Run σ α) := by
  rintro _ _ ⟨⟩
  exact allowed

theorem lift {x : Except Error α} (fails : MachineDescription.FailsOnly p x) :
    FailsOnly p (liftM x : Run σ α) :=
  fun _ => fails

theorem bind {x : Run σ α} {f : α → Run σ β} (first : FailsOnly p x)
    (next : ∀ a, FailsOnly p (f a)) : FailsOnly p (x >>= f) := by
  intro s
  have start := first s
  rw [run_bind]
  revert start
  obtain ⟨result, t⟩ := x.run s
  intro start
  cases result with
  | error err =>
    rintro _ ⟨⟩
    exact start err rfl
  | ok a => exact next a t

end FailsOnly

end Run

/-- The kinds of errors that evaluation reports. -/
def ErrorKind.ofEvaluation : List ErrorKind :=
  [evaluation, typeMismatch, unsupported, shape]

def Error.OfEvaluation (err : Error) : Prop :=
  err.kind ∈ ErrorKind.ofEvaluation

/-- The error of an operation that refuses its operands; it does not complain of a range. -/
def Error.OfOperands (err : Error) : Prop :=
  ∃ fault : ValueFault, err = .of (.value fault) ∧ fault.kind ≠ .range

theorem Error.OfOperands.ofEvaluation {err : Error} (refused : err.OfOperands) :
    err.OfEvaluation := by
  obtain ⟨fault, rfl, inside⟩ := refused
  change fault.kind ∈ ErrorKind.ofEvaluation
  cases fault <;> first | exact absurd rfl inside | simp [ValueFault.kind, ErrorKind.ofEvaluation]

namespace Value

variable {v w : Value} {signed : Bool} {operation : Operation}

/-- No operation of an expression complains of a range. -/
theorem refuse_fails {α : Type} {fault : ValueFault} (inside : fault.kind ≠ .range) :
    FailsOnly Error.OfOperands (refuse fault : Except Error α) := by
  rintro _ ⟨⟩
  exact ⟨fault, rfl, inside⟩

theorem requireNumber_eq_ok_iff :
    v.requireNumber operation = .ok () ↔ v.ty.isBool = false ∧ 0 < v.width := by
  unfold requireNumber
  split
  · rename_i refused
    refine ⟨nofun, ?_⟩
    rintro ⟨number, positive⟩
    rcases refused with truth | empty
    · rw [number] at truth
      cases truth
    · omega
  · rename_i accepted
    obtain ⟨number, nonempty⟩ := not_or.mp accepted
    exact ⟨fun _ => ⟨Bool.eq_false_iff.mpr number, Nat.pos_of_ne_zero nonempty⟩, fun _ => rfl⟩

theorem requireSameWidth_eq_ok_iff :
    v.requireSameWidth operation w = .ok () ↔ v.width = w.width := by
  unfold requireSameWidth
  split <;> simp_all [refuse]

theorem requireNumber_fails : FailsOnly Error.OfOperands (v.requireNumber operation) := by
  unfold requireNumber
  split
  · exact refuse_fails nofun
  · exact .ok ()

theorem requireSameWidth_fails :
    FailsOnly Error.OfOperands (v.requireSameWidth operation w) := by
  unfold requireSameWidth
  split
  · exact .ok ()
  · exact refuse_fails nofun

/-- What follows the checks of two operands may take them for numbers of one width. -/
theorem checked_fails {α : Type} {x : Except Error α}
    (rest : v.ty.isBool = false → 0 < v.width → v.width = w.width →
      FailsOnly Error.OfOperands x) :
    FailsOnly Error.OfOperands
      (v.requireNumber operation >>= fun _ => v.requireSameWidth operation w >>= fun _ => x) := by
  refine requireNumber_fails.bind fun _ accepted => requireSameWidth_fails.bind fun _ same => ?_
  obtain ⟨number, positive⟩ := requireNumber_eq_ok_iff.mp accepted
  exact rest number positive (requireSameWidth_eq_ok_iff.mp same)

theorem addWithCarry_fails (carry : Bool) :
    FailsOnly Error.OfOperands (v.addWithCarry w carry) :=
  checked_fails fun _ _ _ => .ok _

theorem subtract_fails : FailsOnly Error.OfOperands (v.subtract w) :=
  checked_fails fun _ _ _ => (addWithCarry_fails false).bind fun _ _ => .ok _

theorem not_fails : FailsOnly Error.OfOperands v.not := by
  unfold Value.not
  split
  · exact .ok _
  · exact refuse_fails nofun

theorem multiply_fails : FailsOnly Error.OfOperands (v.multiply w) :=
  checked_fails fun _ _ _ => .ok _

/-- Twice the width is enough for every product, also of the least integer with itself. -/
theorem ofInteger_product (positive : 0 < v.width) (same : v.width = w.width) :
    ofInteger (v.reading signed * w.reading signed) (.integer signed (2 * v.width)) =
      .ok (encoding (v.reading signed * w.reading signed) (.integer signed (2 * v.width))) := by
  have left := holds_reading positive signed
  have right := holds_reading (same ▸ positive) signed
  rw [← same] at right
  exact ofInteger_eq_ok_iff.mpr ⟨left.mul right, rfl⟩

/-- A remainder is no larger than the dividend, so there is a value of it. -/
theorem ofInteger_remainder (positive : 0 < v.width) (divisor : Int) :
    ofInteger ((v.reading signed).tmod divisor) (.integer signed v.width) =
      .ok (encoding ((v.reading signed).tmod divisor) (.integer signed v.width)) :=
  ofInteger_eq_ok_iff.mpr ⟨(holds_reading positive signed).tmod divisor, rfl⟩

theorem multiplyLong_fails : FailsOnly Error.OfOperands (v.multiplyLong w signed) := by
  refine checked_fails fun _ positive same => ?_
  rw [ofInteger_product positive same]
  exact .ok _

theorem requireDivision_eq_ok_iff : v.requireDivision operation w = .ok () ↔
    v.ty.isBool = false ∧ 0 < v.width ∧ v.width = w.width ∧ w.isZero = false := by
  constructor
  · intro passed
    cases number : v.requireNumber operation with
    | error err => rw [requireDivision, number] at passed; cases passed
    | ok _ =>
      cases same : v.requireSameWidth operation w with
      | error err => rw [requireDivision, number, same] at passed; cases passed
      | ok _ =>
        obtain ⟨number', positive⟩ := requireNumber_eq_ok_iff.mp number
        refine ⟨number', positive, requireSameWidth_eq_ok_iff.mp same, ?_⟩
        rw [requireDivision, number, same] at passed
        cases zero : w.isZero with
        | false => rfl
        | true => rw [zero] at passed; cases passed
  · rintro ⟨number, positive, same, nonzero⟩
    rw [requireDivision, requireNumber_eq_ok_iff.mpr ⟨number, positive⟩,
      requireSameWidth_eq_ok_iff.mpr same, nonzero]
    rfl

theorem requireDivision_fails : FailsOnly Error.OfOperands (v.requireDivision operation w) := by
  refine checked_fails fun _ _ _ => ?_
  split
  · exact refuse_fails nofun
  · exact .ok ()

/-- A quotient may have no value, and then the division reports it as its own failure. -/
theorem divide_fails : FailsOnly Error.OfOperands (v.divide w signed) := by
  refine requireDivision_fails.bind fun _ _ => ?_
  -- the range error of a quotient without a value is dropped here
  split
  · exact .ok _
  · exact refuse_fails nofun

theorem modulo_fails : FailsOnly Error.OfOperands (v.modulo w signed) := by
  refine requireDivision_fails.bind fun _ passed => ?_
  rw [ofInteger_remainder (requireDivision_eq_ok_iff.mp passed).2.1]
  exact .ok _

theorem multiplyLong_eq (number : v.ty.isBool = false) (positive : 0 < v.width)
    (same : v.width = w.width) :
    v.multiplyLong w signed = .ok
      (encoding (v.reading signed * w.reading signed) (.integer signed (2 * v.width))) := by
  rw [multiplyLong, requireNumber_eq_ok_iff.mpr ⟨number, positive⟩,
    requireSameWidth_eq_ok_iff.mpr same]
  exact ofInteger_product positive same

/-- The product of double width is the exact product of the readings. -/
theorem exists_multiplyLong (number : v.ty.isBool = false) (positive : 0 < v.width)
    (same : v.width = w.width) :
    ∃ product, v.multiplyLong w signed = .ok product ∧
      product.integer = v.reading signed * w.reading signed := by
  have made := @ofInteger_product v w signed positive same
  exact ⟨_, multiplyLong_eq number positive same,
    integer_encoding (ofInteger_eq_ok_iff.mp made).1⟩

theorem modulo_eq (divisible : v.requireDivision .modulo w = .ok ()) :
    v.modulo w signed = .ok
      (encoding ((v.reading signed).tmod (w.reading signed)) (.integer signed v.width)) := by
  rw [modulo, divisible]
  exact ofInteger_remainder (requireDivision_eq_ok_iff.mp divisible).2.1 _

/-- The remainder is that of the readings, with the sign of the dividend. -/
theorem exists_modulo (divisible : v.requireDivision .modulo w = .ok ()) :
    ∃ remainder, v.modulo w signed = .ok remainder ∧
      remainder.integer = (v.reading signed).tmod (w.reading signed) := by
  have positive := (requireDivision_eq_ok_iff.mp divisible).2.1
  have made := @ofInteger_remainder v signed positive (w.reading signed)
  exact ⟨_, modulo_eq divisible, integer_encoding (ofInteger_eq_ok_iff.mp made).1⟩

/-- A quotient that no value can be made from is reported by the division itself. -/
theorem divide_of_refused {refused : Error} (divisible : v.requireDivision .division w = .ok ())
    (failed : ofInteger ((v.reading signed).tdiv (w.reading signed)) (.integer signed v.width) =
      .error refused) :
    v.divide w signed = .error (.of (.value (.quotientOverflow v w))) := by
  simp only [divide, divisible, failed]
  rfl

theorem toBool_fails : FailsOnly Error.OfOperands v.toBool := by
  unfold toBool
  split
  · exact .ok _
  · exact refuse_fails nofun

theorem slice_fails (s : Slice) : FailsOnly Error.OfOperands (v.slice s) := by
  unfold slice
  split
  · exact .ok _
  · exact refuse_fails nofun

end Value

/-- An operator of one operand refuses it or has a value. -/
theorem UnaryOp.apply_fails (op : UnaryOp) (v : Value) :
    FailsOnly Error.OfOperands (op.apply v) := by
  cases op with
  | negate | complement => exact .ok _
  | not => exact Value.not_fails

theorem Order.apply_fails (order : Order) (v w : Value) (signed : Bool) :
    FailsOnly Error.OfOperands (order.apply v w signed) := by
  cases order <;> exact Value.requireSameWidth_fails.bind fun _ _ => .ok _

/-- An operator of two operands refuses them or has a value; nothing that it makes is out of range.
-/
theorem BinaryOp.apply_fails (op : BinaryOp) (v w : Value) :
    FailsOnly Error.OfOperands (op.apply v w) := by
  cases op with
  | add => exact (Value.addWithCarry_fails false).map _
  | subtract => exact Value.subtract_fails.map _
  | multiply => exact Value.multiply_fails
  | multiplyLong => exact Value.multiplyLong_fails
  | divide => exact Value.divide_fails
  | modulo => exact Value.modulo_fails
  | and | or | xor => exact Value.requireSameWidth_fails.bind fun _ _ => .ok _
  | shift => exact .ok _
  | equal | differ => exact Value.requireSameWidth_fails.map _
  | compare order signed => exact order.apply_fails v w signed

theorem Resize.apply_fails (mode : Resize) (v : Value) (ty : DataType) :
    FailsOnly Error.OfOperands (mode.apply v ty) := by
  cases mode with
  | cast => exact .ok _
  | truncate | zeroExtend | signExtend =>
    simp only [apply, Value.truncate, Value.zeroExtend, Value.signExtend]
    split
    · exact Value.refuse_fails nofun
    · exact .ok _

namespace Expr

variable {σ : Type} {reader : Reader σ} {bindings : Bindings}

theorem evalAll_fails {p : Error → Prop} {address : List Expr}
    (each : ∀ e ∈ address, Run.FailsOnly p (e.eval reader bindings)) :
    Run.FailsOnly p (evalAll reader bindings address) := by
  induction address with
  | nil => exact .pure []
  | cons e rest ih =>
    obtain ⟨first, later⟩ := List.forall_mem_cons.mp each
    exact first.bind fun v => (ih later).bind fun values => .pure (v :: values)

/-- The property covers all that can go wrong in an expression: an operation that refuses its
operands, a read that fails and a name without a value. -/
structure Covers (p : Error → Prop) (reader : Reader σ) (bindings : Bindings) (e : Expr) :
    Prop where
  operands : ∀ err : Error, err.OfOperands → p err
  reads : ∀ resource address, Run.FailsOnly p (reader.read resource address)
  names : ∀ scope, ∀ name ∈ e.references scope, bindings.value? scope name.simple = none →
    p (.of (.expr (.unbound scope name)))

variable {p : Error → Prop}

/-- A condition that covers the reads and names of an expression covers those of its parts. -/
theorem Covers.child {e child : Expr} (covers : e.Covers p reader bindings)
    (inside : child ∈ e.children) : child.Covers p reader bindings where
  operands := covers.operands
  reads := covers.reads
  names scope name member := covers.names scope name (mem_references_of_child inside member)

theorem Covers.lift {e : Expr} (covers : e.Covers p reader bindings) {α : Type}
    {x : Except Error α} (fails : FailsOnly Error.OfOperands x) :
    Run.FailsOnly p (liftM x : Run σ α) :=
  .lift (fails.mono covers.operands)

/-- An evaluation fails only in the ways that its reads, its names and the checks of operands do. -/
theorem Covers.eval_fails {e : Expr} (covers : e.Covers p reader bindings) :
    Run.FailsOnly p (e.eval reader bindings) := by
  induction e with
  | const v => exact .pure v
  | ref scope name =>
    simp only [eval]
    split
    · exact .pure _
    · rename_i unbound
      exact .throw (covers.names scope name (by simp [references]) unbound)
  | read resource address ih =>
    have each := evalAll_fails fun e inside => ih e inside (covers.child inside)
    exact each.bind fun indices => covers.reads resource indices
  | unary op operand ih =>
    exact (ih (covers.child (by simp [children]))).bind fun v => covers.lift (op.apply_fails v)
  | binary op lhs rhs ihLeft ihRight =>
    have left := ihLeft (covers.child (by simp [children]))
    have right := ihRight (covers.child (by simp [children]))
    exact left.bind fun v => right.bind fun w => covers.lift (op.apply_fails v w)
  | logical op lhs rhs ihLeft ihRight =>
    have left := ihLeft (covers.child (by simp [children]))
    have right := ihRight (covers.child (by simp [children]))
    refine left.bind fun v => (covers.lift Value.toBool_fails).bind fun holds => ?_
    split
    · exact .pure _
    · exact right.bind fun w => (covers.lift Value.toBool_fails).bind fun _ => .pure _
  | slice operand s ih =>
    exact (ih (covers.child (by simp [children]))).bind fun v => covers.lift (Value.slice_fails s)
  | resize mode operand ty ih =>
    exact (ih (covers.child (by simp [children]))).bind fun v => covers.lift (mode.apply_fails v ty)
  | concat high low ihHigh ihLow =>
    have top := ihHigh (covers.child (by simp [children]))
    have bottom := ihLow (covers.child (by simp [children]))
    exact top.bind fun v => bottom.bind fun w => .pure _
  | select condition whenTrue otherwise ihTest ihTrue ihFalse =>
    have test := ihTest (covers.child (by simp [children]))
    refine test.bind fun v => (covers.lift Value.toBool_fails).bind fun holds => ?_
    split
    · exact ihTrue (covers.child (by simp [children]))
    · exact ihFalse (covers.child (by simp [children]))

theorem eval_fails
    (reads : ∀ resource address, Run.FailsOnly Error.OfEvaluation (reader.read resource address))
    (e : Expr) : Run.FailsOnly Error.OfEvaluation (e.eval reader bindings) := by
  have covers : e.Covers Error.OfEvaluation reader bindings :=
    ⟨fun _ refused => refused.ofEvaluation, reads, fun _ _ _ _ => List.mem_cons_self⟩
  exact covers.eval_fails

/-- If the errors of reads are of evaluation, an evaluation fails as such, with a mismatch of types,
an unsupported operation or a wrong shape; it never complains of a range. On numbers of one width
the exact product of double width and the exact remainder have a value, and a quotient that has
none is an error of evaluation. -/
theorem eval_error_kind :
    (∀ {σ : Type} (reader : Reader σ) (bindings : Bindings),
      (∀ resource address s err,
        ((reader.read resource address).run s).1 = .error err → err.kind = .evaluation) →
      ∀ (e : Expr) (s : σ) (err : Error), ((e.eval reader bindings).run s).1 = .error err →
        err.kind ∈ [ErrorKind.evaluation, .typeMismatch, .unsupported, .shape] ∧
          err.kind ≠ .range) ∧
    ∀ (v w : Value) (signed : Bool), v.ty.isBool = false → 0 < v.width → v.width = w.width →
      (∃ product, v.multiplyLong w signed = .ok product ∧
        product.integer = v.reading signed * w.reading signed) ∧
      (w.isZero = false →
        (∃ remainder, v.modulo w signed = .ok remainder ∧
          remainder.integer = (v.reading signed).tmod (w.reading signed)) ∧
        ∀ refused, Value.ofInteger ((v.reading signed).tdiv (w.reading signed))
            (.integer signed v.width) = .error refused →
          ∃ err, v.divide w signed = .error err ∧ err.kind = .evaluation) := by
  refine ⟨?_, ?_⟩
  · intro σ reader bindings reads e s err failed
    have kind : err.kind ∈ ErrorKind.ofEvaluation := by
      refine eval_fails (fun resource address s err failed => ?_) e s err failed
      rw [Error.OfEvaluation, reads resource address s err failed]
      exact List.mem_cons_self
    exact ⟨kind, fun range => by rw [range] at kind; revert kind; decide⟩
  · intro v w signed number positive same
    refine ⟨Value.exists_multiplyLong number positive same, fun nonzero => ?_⟩
    have divisible {operation : Operation} : v.requireDivision operation w = .ok () :=
      Value.requireDivision_eq_ok_iff.mpr ⟨number, positive, same, nonzero⟩
    exact ⟨Value.exists_modulo divisible,
      fun refused failed => ⟨_, Value.divide_of_refused divisible failed, rfl⟩⟩

/-- One failure of each kind: a quotient without a value, operands of two widths, the negation of a
number and a slice beyond the operand. -/
def failing : List Expr :=
  [.binary (.divide true) (.const (.minimum (.sint 8))) (.const (.wrapInt (.sint 8) (-1))),
    .binary .add (.const (.zero (.uint 8))) (.const (.zero (.uint 4))),
    .unary .not (.const (.zero (.uint 8))),
    .slice (.const (.zero (.uint 8)))
      ⟨[.single 8], by decide, List.pairwise_singleton _ _, trivial, by decide⟩]

/-- Each fails in its own way and none for a range. The square of the least byte and its remainder
by minus one have values. -/
theorem eval_error_kind_failing :
    failing.map (fun e => match ((e.eval Reader.none .empty).run ()).1 with
      | .ok _ => none
      | .error err => some err.kind) =
        [some .evaluation, some .typeMismatch, some .unsupported, some .shape] ∧
      (∀ e ∈ failing, ∀ err, ((e.eval Reader.none .empty).run ()).1 = .error err →
        err.kind ≠ .range) ∧
      (∃ product, (Value.minimum (.sint 8)).multiplyLong (.minimum (.sint 8)) true = .ok product ∧
        product.integer = 16384) ∧
      ∃ remainder, (Value.minimum (.sint 8)).modulo (.wrapInt (.sint 8) (-1)) true = .ok remainder ∧
        remainder.integer = 0 := by
  obtain ⟨kinds, numbers⟩ := eval_error_kind
  refine ⟨by decide, fun e _ err failed => ?_, (numbers _ _ true rfl (by decide) rfl).1, ?_⟩
  · refine (kinds Reader.none .empty ?_ e () err failed).2
    rintro resource address s _ ⟨⟩
    rfl
  · exact ((numbers _ _ true rfl (by decide) rfl).2 rfl).1

end Expr

end MachineDescription
