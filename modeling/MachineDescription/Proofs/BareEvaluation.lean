import MachineDescription.Proofs.BarePatterns
import MachineDescription.Proofs.SliceViews

namespace MachineDescription

/-- The ways to make a value from something else. -/
inductive Maker where
  | integer (n : Int) (ty : DataType)
  | pattern (n : Nat) (ty : DataType)
  | truth (b : Bool)
  | zero (ty : DataType)
  | one (ty : DataType)
  | least (ty : DataType)
  | greatest (ty : DataType)
  | literal (text : String) (ty : DataType)
  | word (order : Endianness) (bytes : List UInt8)
  | mask (s : Slice)

namespace Maker

def value : Maker → Except Error Value
  | integer n ty => Value.ofInteger n ty
  | pattern n ty => Value.ofPattern n ty
  | truth b => .ok (.ofBool b)
  | zero ty => .ok (.zero ty)
  | one ty => Value.one ty
  | least ty => .ok (.minimum ty)
  | greatest ty => .ok (.maximum ty)
  | literal text ty => Value.parse text ty
  | word order bytes => .ok (order.word bytes)
  | mask s => .ok s.maskValue

def bare : Maker → Option Bare
  | integer n ty => Bare.ofInteger n ty
  | pattern n ty => Bare.ofPattern n ty
  | truth b => some (.truth b)
  | zero ty => some ⟨ty, 0⟩
  | one ty => Bare.ofInteger 1 ty
  | least ty => some ⟨ty, if ty.isSigned ∧ 0 < ty.width then Bits.limit (ty.width - 1) else 0⟩
  | greatest ty =>
    some ⟨ty, if ty.isSigned then Bits.ones (ty.width - 1) else Bits.ones ty.width⟩
  | literal text ty =>
    match Literal.parse text with
    | .ok parsed =>
      match parsed.kind with
      | .binary => Bare.ofPattern parsed.magnitude ty
      | .decimal | .hexadecimal | .octal => Bare.ofInteger parsed.integer ty
    | .error _ => none
  | word order bytes =>
    some ⟨.bits (8 * bytes.length), Endianness.numberOfBytes (order.arrange bytes)⟩
  | mask s => some ⟨.bits (s.msb + 1), s.mask⟩

theorem bare_eq (m : Maker) : m.bare = Bare.result Value.bare m.value := by
  cases m with
  | integer n ty => exact Bare.ofInteger_eq n ty
  | pattern n ty => exact Bare.ofPattern_eq n ty
  | truth | zero => rfl
  | one ty => exact Bare.ofInteger_eq 1 ty
  | least ty =>
    exact congrArg some (congrArg₂ Bare.mk (Value.ty_minimum ty) (Value.pattern_minimum ty)).symm
  | greatest ty =>
    exact congrArg some (congrArg₂ Bare.mk (Value.ty_maximum ty) (Value.pattern_maximum ty)).symm
  | literal text ty =>
    simp only [bare, value, Value.parse]
    cases Literal.parse text with
    | error fault => rfl
    | ok parsed =>
      simp only [Literal.toValue]
      cases parsed.kind with
      | binary => exact Bare.ofPattern_eq parsed.magnitude ty
      | decimal | hexadecimal | octal => exact Bare.ofInteger_eq parsed.integer ty
  | word order bytes =>
    have small := Endianness.numberOfBytes_lt (order.arrange bytes)
    have length : (order.arrange bytes).length = bytes.length := by
      cases order with
      | little => rfl
      | big => exact List.length_reverse
    rw [length] at small
    exact congrArg some (Bare.bare_wrap_of_lt small).symm
  | mask s => exact congrArg some (Bare.bare_wrap_of_lt s.mask_lt).symm

end Maker

/-- Operations on one value. -/
inductive Transform where
  | unary (op : UnaryOp)
  | shift (kind : Shift) (amount : Nat)
  | resize (mode : Resize) (ty : DataType)
  | retag (ty : DataType)
  | toBits
  | slice (s : Slice)
  | extract (f : Field)

namespace Transform

def apply : Transform → Value → Except Error Value
  | unary op, v => op.apply v
  | shift kind amount, v => .ok (kind.apply v amount)
  | resize mode ty, v => mode.apply v ty
  | retag ty, v => v.retag ty
  | toBits, v => .ok v.toBits
  | slice s, v => v.slice s
  | extract f, v => f.extract v

def bare : Transform → Bare → Option Bare
  | unary op, b => op.bare b
  | shift kind amount, b => some (kind.bare b amount)
  | resize mode ty, b => mode.bare b ty
  | retag ty, b => b.retag ty
  | toBits, b => some ⟨b.ty.toBits, b.number⟩
  | slice s, b => b.slice s
  | extract f, b => Bare.extract f b

theorem bare_eq (t : Transform) (v : Value) :
    t.bare v.bare = Bare.result Value.bare (t.apply v) := by
  cases t with
  | unary op => exact Bare.bare_unary op v
  | shift kind amount => exact congrArg some (Bare.bare_shift kind v amount)
  | resize mode ty => exact Bare.bare_resize mode v ty
  | retag ty => exact Bare.bare_retag v ty
  | toBits => rfl
  | slice s => exact Bare.bare_slice v s
  | extract f => exact Bare.bare_extract f v

end Transform

/-- Operations on two values. The flags of a sum are left out. -/
inductive Combine where
  | binary (op : BinaryOp)
  | addWithCarry (carry : Bool)
  | subtractWith (sense : CarrySense) (flag : Bool)
  | concat
  | insert (f : Field)

namespace Combine

def apply : Combine → Value → Value → Except Error Value
  | binary op, v, w => op.apply v w
  | addWithCarry carry, v, w => (v.addWithCarry w carry).map (·.result)
  | subtractWith sense flag, v, w => (v.subtractWith w sense flag).map (·.result)
  | concat, v, w => .ok (v.concat w)
  | insert f, v, w => f.insert v w

def bare : Combine → Bare → Bare → Option Bare
  | binary op, b, c => op.bare b c
  | addWithCarry carry, b, c =>
    if b.Numbers c then some (.cut b.ty (b.number + c.number + carry.toNat)) else none
  | subtractWith sense flag, b, c =>
    if b.Numbers c then
      some (.cut b.ty (b.number + c.complement.number + (Bare.carryIn sense flag).toNat))
    else none
  | concat, b, c => some (b.concat c)
  | insert f, b, c => Bare.insert f b c

theorem bare_eq (c : Combine) (v w : Value) :
    c.bare v.bare w.bare = Bare.result Value.bare (c.apply v w) := by
  cases c with
  | binary op => exact Bare.bare_binary op v w
  | addWithCarry carry =>
    exact ((Bare.result_map _ _).trans (Bare.bare_addWithCarry v w carry)).symm
  | subtractWith sense flag =>
    exact ((Bare.result_map _ _).trans (Bare.bare_subtractWith v w sense flag)).symm
  | concat => exact congrArg some (Bare.bare_concat v w)
  | insert f => exact Bare.bare_insert f v w

end Combine

/-- A finite composition of makers and operations. -/
inductive Computation where
  | make (m : Maker)
  | transform (t : Transform) (x : Computation)
  | combine (c : Combine) (x y : Computation)

namespace Computation

def value : Computation → Except Error Value
  | make m => m.value
  | transform t x => do
    let v ← x.value
    t.apply v
  | combine c x y => do
    let v ← x.value
    let w ← y.value
    c.apply v w

def bare : Computation → Option Bare
  | make m => m.bare
  | transform t x => do
    let b ← x.bare
    t.bare b
  | combine c x y => do
    let b ← x.bare
    let d ← y.bare
    c.bare b d

/-- A composition fails on bare patterns exactly where it fails on values, and yields the same
number where it does not. -/
theorem bare_eq (x : Computation) : x.bare = Bare.result Value.bare x.value := by
  induction x with
  | make m => exact m.bare_eq
  | transform t x ih =>
    rw [bare, value, ih]
    cases x.value with
    | error err => rfl
    | ok v => exact t.bare_eq v
  | combine c x y ihLeft ihRight =>
    rw [bare, value, ihLeft, ihRight]
    cases x.value with
    | error err => rfl
    | ok v =>
      cases y.value with
      | error err => rfl
      | ok w => exact c.bare_eq v w

/-- The bound that a value carries is kept by the numbers themselves. -/
theorem fits {x : Computation} {b : Bare} (made : x.bare = some b) : b.Fits :=
  Bare.fits_of_result (x.bare_eq.symm.trans made)

end Computation

namespace Bare

/-- A result, if there is one, and the state that reads have left. -/
abbrev Run (σ α : Type) : Type :=
  OptionT (StateM σ) α

structure Reader (σ : Type) where
  read : Name → List Bare → Run σ Bare

abbrev Bindings : Type :=
  Scope → String → Option Bare

namespace Run

variable {σ α β : Type}

def ofOption (x : Option α) : Run σ α :=
  OptionT.mk (pure x)

theorem run_bind (x : Run σ α) (f : α → Run σ β) (s : σ) :
    (x >>= f).run s =
      match x.run s with
      | (some a, t) => (f a).run t
      | (none, t) => (none, t) := by
  change (match x.run s with
    | (result, t) => (match result with
      | some a => (f a).run
      | none => pure none : StateM σ (Option β)) t) = _
  cases x.run s with
  | mk result t => cases result <;> rfl

/-- Whatever the run yields has the property. -/
def Yields (p : α → Prop) (x : Run σ α) : Prop :=
  ∀ s a, (x.run s).1 = some a → p a

namespace Yields

variable {p : α → Prop} {q : β → Prop}

theorem pure {a : α} (holds : p a) : Yields p (pure a : Run σ α) := by
  rintro s _ ⟨⟩
  exact holds

theorem ofOption {x : Option α} (holds : ∀ a, x = some a → p a) :
    Yields p (ofOption x : Run σ α) :=
  fun _ a made => holds a made

theorem bind {x : Run σ α} {f : α → Run σ β} (first : Yields p x)
    (next : ∀ a, p a → Yields q (f a)) : Yields q (x >>= f) := by
  intro s b made
  rw [run_bind] at made
  cases outcome : x.run s with
  | mk result t =>
    rw [outcome] at made
    cases result with
    | none => cases made
    | some a => exact next a (first s a (congrArg Prod.fst outcome)) t b made

/-- Nothing has to be known of a first step whose result only chooses the way. -/
theorem skip {x : Run σ α} {f : α → Run σ β} (next : ∀ a, Yields q (f a)) : Yields q (x >>= f) :=
  bind (p := fun _ => True) (fun _ _ _ => trivial) fun a _ => next a

end Yields

end Run

end Bare

namespace Run

variable {σ α β γ δ : Type} {f : α → β} {g : γ → δ}

/-- The bare run yields what the run does, without the bounds, and leaves the same state. -/
def Erases (f : α → β) (x : Run σ α) (y : Bare.Run σ β) : Prop :=
  ∀ s, y.run s = (Bare.result f (x.run s).1, (x.run s).2)

namespace Erases

theorem pure (a : α) : Erases f (pure a : Run σ α) (pure (f a)) :=
  fun _ => rfl

theorem throw (err : Error) : Erases f (throw err : Run σ α) (.ofOption none) :=
  fun _ => rfl

theorem lift {x : Except Error α} {y : Option β} (same : y = Bare.result f x) :
    Erases f (liftM x : Run σ α) (.ofOption y) :=
  fun s => congrArg (·, s) same

theorem bind {x : Run σ α} {y : Bare.Run σ β} {h : α → Run σ γ} {k : β → Bare.Run σ δ}
    (first : Erases f x y) (next : ∀ a, Erases g (h a) (k (f a))) :
    Erases g (x >>= h) (y >>= k) := by
  intro s
  have start := first s
  rw [run_bind, Bare.Run.run_bind, start]
  obtain ⟨result, t⟩ := x.run s
  cases result with
  | error err => rfl
  | ok a => exact next a t

end Erases

end Run

/-- The value of a bare pattern that fits. -/
def Bare.value? (b : Bare) : Option Value :=
  if fits : b.number < Bits.limit b.width then some ⟨b.ty, b.number, fits⟩ else none

/-- The reader that takes an address without bounds, and none that does not fit. -/
def Reader.bare {σ : Type} (reader : Reader σ) : Bare.Reader σ where
  read resource address := OptionT.mk fun s =>
    match address.mapM Bare.value? with
    | some values =>
      (Bare.result Value.bare ((reader.read resource values).run s).1,
        ((reader.read resource values).run s).2)
    | .none => (.none, s)

/-- A reader of values serves bare patterns as well, as long as they fit. -/
theorem Reader.bare_erases {σ : Type} (reader : Reader σ) (resource : Name) (address : List Value) :
    Run.Erases Value.bare (reader.read resource address)
      (reader.bare.read resource (address.map Value.bare)) := by
  have restored : (address.map Value.bare).mapM Bare.value? = some address := by
    induction address with
    | nil => rfl
    | cons v rest ih =>
      have first : v.bare.value? = some v := dif_pos v.pattern_lt
      simp only [List.map_cons, List.mapM_cons, first, ih]
      rfl
  intro s
  change (match (address.map Value.bare).mapM Bare.value? with | some values => _ | .none => _) = _
  rw [restored]

def Bindings.bare (bindings : Bindings) : Bare.Bindings :=
  fun scope name => (bindings.value? scope name).map Value.bare

namespace Expr

variable {σ : Type}

mutual

/-- Evaluation on bare patterns. -/
def evalBare (reader : Bare.Reader σ) (bindings : Bare.Bindings) : Expr → Bare.Run σ Bare
  | const v => pure v.bare
  | ref scope name => .ofOption (bindings scope name.simple)
  | read resource address => do
    let indices ← evalBareAll reader bindings address
    reader.read resource indices
  | unary op operand => do
    let b ← operand.evalBare reader bindings
    .ofOption (op.bare b)
  | binary op lhs rhs => do
    let b ← lhs.evalBare reader bindings
    let c ← rhs.evalBare reader bindings
    .ofOption (op.bare b c)
  | logical op lhs rhs => do
    let b ← lhs.evalBare reader bindings
    let left ← .ofOption b.toBool
    if left = op.decisive then
      pure (.truth left)
    else
      let c ← rhs.evalBare reader bindings
      let right ← .ofOption c.toBool
      pure (.truth right)
  | slice operand s => do
    let b ← operand.evalBare reader bindings
    .ofOption (b.slice s)
  | resize mode operand ty => do
    let b ← operand.evalBare reader bindings
    .ofOption (mode.bare b ty)
  | concat high low => do
    let b ← high.evalBare reader bindings
    let c ← low.evalBare reader bindings
    pure (b.concat c)
  | select condition whenTrue otherwise => do
    let b ← condition.evalBare reader bindings
    let holds ← .ofOption b.toBool
    if holds then whenTrue.evalBare reader bindings else otherwise.evalBare reader bindings

def evalBareAll (reader : Bare.Reader σ) (bindings : Bare.Bindings) :
    List Expr → Bare.Run σ (List Bare)
  | [] => pure []
  | e :: rest => do
    let b ← e.evalBare reader bindings
    let patterns ← evalBareAll reader bindings rest
    pure (b :: patterns)

end

section Erases

variable {reader : Reader σ} {bindings : Bindings}

/-- Addresses are evaluated from the left, on both sides alike. -/
theorem evalBareAll_erases {address : List Expr}
    (each : ∀ e ∈ address, Run.Erases Value.bare (e.eval reader bindings)
      (e.evalBare reader.bare bindings.bare)) :
    Run.Erases (List.map Value.bare) (evalAll reader bindings address)
      (evalBareAll reader.bare bindings.bare address) := by
  induction address with
  | nil => exact .pure []
  | cons e rest ih =>
    obtain ⟨first, later⟩ := List.forall_mem_cons.mp each
    exact first.bind fun v => (ih later).bind fun values => .pure (v :: values)

/-- Every operation goes the same way on values and on their bare patterns. -/
theorem evalBare_erases (e : Expr) :
    Run.Erases Value.bare (e.eval reader bindings) (e.evalBare reader.bare bindings.bare) := by
  induction e with
  | const v => exact .pure v
  | ref scope name =>
    simp only [eval, evalBare, Bindings.bare]
    cases bindings.value? scope name.simple with
    | none => exact .throw _
    | some v => exact .pure v
  | read resource address ih =>
    exact (evalBareAll_erases ih).bind fun indices => reader.bare_erases resource indices
  | unary op operand ih => exact ih.bind fun v => .lift (Bare.bare_unary op v)
  | binary op lhs rhs ihLeft ihRight =>
    exact ihLeft.bind fun v => ihRight.bind fun w => .lift (Bare.bare_binary op v w)
  | logical op lhs rhs ihLeft ihRight =>
    refine ihLeft.bind fun v => (Run.Erases.lift (Bare.bare_toBool v)).bind fun left => ?_
    simp only [id]
    split
    · exact .pure _
    · exact ihRight.bind fun w => (Run.Erases.lift (Bare.bare_toBool w)).bind fun _ => .pure _
  | slice operand s ih => exact ih.bind fun v => .lift (Bare.bare_slice v s)
  | resize mode operand ty ih => exact ih.bind fun v => .lift (Bare.bare_resize mode v ty)
  | concat high low ihHigh ihLow =>
    refine ihHigh.bind fun v => ihLow.bind fun w => ?_
    rw [Bare.bare_concat]
    exact .pure _
  | select condition whenTrue otherwise ihTest ihTrue ihFalse =>
    refine ihTest.bind fun v => (Run.Erases.lift (Bare.bare_toBool v)).bind fun holds => ?_
    simp only [id]
    split
    · exact ihTrue
    · exact ihFalse

end Erases

section Fits

variable {reader : Bare.Reader σ} {bindings : Bare.Bindings}

theorem evalBareAll_fits {address : List Expr}
    (each : ∀ e ∈ address, Bare.Run.Yields Bare.Fits (e.evalBare reader bindings)) :
    Bare.Run.Yields (fun patterns => ∀ b ∈ patterns, Bare.Fits b)
      (evalBareAll reader bindings address) := by
  induction address with
  | nil => exact .pure nofun
  | cons e rest ih =>
    obtain ⟨first, later⟩ := List.forall_mem_cons.mp each
    exact first.bind fun b fits => (ih later).bind fun patterns all =>
      .pure (List.forall_mem_cons.mpr ⟨fits, all⟩)

/-- Every operation of an expression keeps to the width. -/
theorem evalBare_fits
    (reads : ∀ resource address, (∀ index ∈ address, Bare.Fits index) →
      Bare.Run.Yields Bare.Fits (reader.read resource address))
    (bound : ∀ scope name b, bindings scope name = some b → b.Fits) (e : Expr) :
    Bare.Run.Yields Bare.Fits (e.evalBare reader bindings) := by
  induction e with
  | const v => exact .pure (Bare.fits_bare v)
  | ref scope name => exact .ofOption (bound scope name.simple)
  | read resource address ih =>
    exact (evalBareAll_fits ih).bind fun indices fits => reads resource indices fits
  | unary op operand ih =>
    exact ih.bind fun b fits => .ofOption fun c => fits.of_erased (Bare.bare_unary op)
  | binary op lhs rhs ihLeft ihRight =>
    exact ihLeft.bind fun b left => ihRight.bind fun c right =>
      .ofOption fun d => left.of_erased₂ right (Bare.bare_binary op)
  | logical op lhs rhs ihLeft ihRight =>
    refine ihLeft.bind fun b _ => Bare.Run.Yields.skip fun left => ?_
    split
    · exact .pure (Bare.fits_bare (.ofBool left))
    · exact ihRight.bind fun c _ => Bare.Run.Yields.skip fun right =>
        .pure (Bare.fits_bare (.ofBool right))
  | slice operand s ih =>
    exact ih.bind fun b fits => .ofOption fun c => fits.of_erased (Transform.slice s).bare_eq
  | resize mode operand ty ih =>
    exact ih.bind fun b fits => .ofOption fun c => fits.of_erased (Transform.resize mode ty).bare_eq
  | concat high low ihHigh ihLow =>
    exact ihHigh.bind fun b left => ihLow.bind fun c right =>
      .pure (left.of_erased₂ right Combine.concat.bare_eq rfl)
  | select condition whenTrue otherwise ihTest ihTrue ihFalse =>
    refine ihTest.bind fun b _ => Bare.Run.Yields.skip fun holds => ?_
    split
    · exact ihTrue
    · exact ihFalse

end Fits

end Expr

/-- No pattern exceeds its width. Every composition of makers and operations on values has the
outcome that it has on numbers without a bound, and these numbers fit; so do the results of
evaluation on such numbers if the values of names and the answers to reads do; and evaluation on
values is that evaluation. -/
theorem Computation.patterns_fit :
    (∀ x : Computation, x.bare = Bare.result Value.bare x.value ∧
      (∀ b, x.bare = some b → b.number < 2 ^ b.ty.width) ∧
      ∀ v, x.value = .ok v → v.pattern < 2 ^ v.ty.width) ∧
    (∀ {σ : Type} (reader : Bare.Reader σ) (bindings : Bare.Bindings),
      (∀ resource address s b, (∀ index ∈ address, index.number < 2 ^ index.ty.width) →
        ((reader.read resource address).run s).1 = some b → b.number < 2 ^ b.ty.width) →
      (∀ scope name b, bindings scope name = some b → b.number < 2 ^ b.ty.width) →
      ∀ (e : Expr) (s : σ) (b : Bare), ((e.evalBare reader bindings).run s).1 = some b →
        b.number < 2 ^ b.ty.width) ∧
    ∀ {σ : Type} (reader : Reader σ) (bindings : Bindings) (e : Expr) (s : σ),
      (e.evalBare reader.bare bindings.bare).run s =
        (Bare.result Value.bare ((e.eval reader bindings).run s).1,
          ((e.eval reader bindings).run s).2) ∧
      ∀ v, ((e.eval reader bindings).run s).1 = .ok v → v.pattern < 2 ^ v.ty.width := by
  simp only [← Bits.limit_eq_two_pow]
  refine ⟨fun x => ⟨x.bare_eq, fun b made => fits made, fun v made => ?_⟩, ?_, ?_⟩
  · have made : x.bare = some v.bare := by rw [bare_eq, made, Bare.result_ok]
    exact fits made
  · intro σ reader bindings reads bound e
    exact e.evalBare_fits (fun resource address fit s b => reads resource address s b fit) bound
  · intro σ reader bindings e s
    exact ⟨e.evalBare_erases s, fun v _ => v.pattern_lt⟩

/-- A reader that answers every address with the greatest byte. -/
def Bare.Reader.greatest : Bare.Reader Unit :=
  ⟨fun _ _ => pure ⟨.uint 8, 255⟩⟩

/-- The sum of a byte that is read and a name, beside the byte shifted to the left. -/
def Expr.wide : Expr :=
  .concat (.binary .add (.read (.ofParts ["M"]) []) (.ref .parameter (.ofParts ["x"])))
    (.binary (.shift .left) (.read (.ofParts ["M"]) []) (.const (.wrap (.uint 8) 4)))

/-- The sum of the greatest bytes and the shift to the left are cut to a byte each before they stand
beside each other, and a difference at the lower end of a signed byte comes back into the byte. -/
theorem Computation.patterns_fit_wide :
    ((Expr.wide.evalBare .greatest fun _ _ => some ⟨.uint 8, 255⟩).run ()).1 =
      some ⟨.bits 16, 0xfef0⟩ ∧
      (∀ b, ((Expr.wide.evalBare .greatest fun _ _ => some ⟨.uint 8, 255⟩).run ()).1 = some b →
        b.number < 2 ^ b.ty.width) ∧
      ∀ v, (Computation.combine (.binary .subtract) (.make (.least (.sint 8)))
        (.make (.one (.sint 8)))).value = .ok v → v.pattern < 2 ^ v.ty.width := by
  obtain ⟨computed, evaluated, _⟩ := patterns_fit
  refine ⟨by decide, fun b made => ?_, (computed _).2.2⟩
  refine evaluated .greatest (fun _ _ => some ⟨.uint 8, 255⟩) ?_ ?_ Expr.wide () b made
  · rintro resource address s _ _ ⟨⟩
    decide
  · rintro scope name _ ⟨⟩
    decide

end MachineDescription
