import MachineDescription.Value.Arithmetic
import MachineDescription.Value.Bitwise

namespace MachineDescription

/-- The values of names. Names are looked up by their last part. -/
structure Bindings where
  value? : Scope → String → Option Value

namespace Bindings

def empty : Bindings :=
  ⟨fun _ _ => none⟩

/-- Bind a name; an earlier binding of the name in the scope is replaced. -/
def bind (bindings : Bindings) (scope : Scope) (name : String) (v : Value) : Bindings :=
  ⟨fun own other => if own = scope ∧ other = name then some v else bindings.value? own other⟩

end Bindings

/-- What a computation yields: a result or an error, and the state that reads have left. -/
abbrev Run (σ α : Type) : Type :=
  ExceptT Error (StateM σ) α

/-- What serves the reads of an evaluation. It may keep a state of its own from one read to the
next, and the state after the last read is part of the result, also if the evaluation fails. -/
structure Reader (σ : Type) where
  read : Name → List Value → Run σ Value

namespace Reader

/-- The reader of a pure context: no resource can be read. -/
def none : Reader Unit :=
  ⟨fun resource _ => throw (.of (.expr (.noReader resource)))⟩

end Reader

/-- A shift amount that does not fit 64 bits counts as the largest one that does. -/
def Value.shiftAmount (v : Value) : Nat :=
  min v.pattern (Bits.ones 64)

def UnaryOp.apply (op : UnaryOp) (v : Value) : Except Error Value :=
  match op with
  | negate => .ok v.negate
  | complement => .ok v.complement
  | not => v.not

def Shift.apply (shift : Shift) (v : Value) (amount : Nat) : Value :=
  match shift with
  | left => v.shiftLeft amount
  | right => v.shiftRight amount
  | rightSigned => v.shiftRightSigned amount
  | rotateLeft => v.rotateLeft amount
  | rotateRight => v.rotateRight amount

def Order.apply (order : Order) (v w : Value) (signed : Bool) : Except Error Value :=
  match order with
  | less => v.lt w signed
  | atMost => v.le w signed
  | greater => v.gt w signed
  | atLeast => v.ge w signed

def BinaryOp.apply (op : BinaryOp) (v w : Value) : Except Error Value :=
  match op with
  | add => (v.add w).map (·.result)
  | subtract => (v.subtract w).map (·.result)
  | multiply => v.multiply w
  | multiplyLong signed => v.multiplyLong w signed
  | divide signed => v.divide w signed
  | modulo signed => v.modulo w signed
  | and => v.and w
  | or => v.or w
  | xor => v.xor w
  | shift kind => .ok (kind.apply v w.shiftAmount)
  | equal => (v.requireSameWidth .equality w).map fun _ => .ofBool (v.samePattern w)
  | differ => (v.requireSameWidth .inequality w).map fun _ => .ofBool !(v.samePattern w)
  | compare order signed => order.apply v w signed

def Resize.apply (mode : Resize) (v : Value) (ty : DataType) : Except Error Value :=
  match mode with
  | cast => .ok (v.cast ty)
  | truncate => v.truncate ty
  | zeroExtend => v.zeroExtend ty
  | signExtend => v.signExtend ty

/-- The truth value of the left operand that settles the connective. -/
def Connective.decisive : Connective → Bool
  | and => false
  | or => true

namespace Expr

variable {σ : Type}

mutual

def eval (reader : Reader σ) (bindings : Bindings) : Expr → Run σ Value
  | const v => pure v
  | ref scope name =>
    match bindings.value? scope name.simple with
    | some v => pure v
    | none => throw (.of (.expr (.unbound scope name)))
  | read resource address => do
    let indices ← evalAll reader bindings address
    reader.read resource indices
  | unary op operand => do
    let v ← operand.eval reader bindings
    op.apply v
  | binary op lhs rhs => do
    let v ← lhs.eval reader bindings
    let w ← rhs.eval reader bindings
    op.apply v w
  | logical op lhs rhs => do
    let v ← lhs.eval reader bindings
    let left ← v.toBool
    if left = op.decisive then
      pure (.ofBool left)
    else
      let w ← rhs.eval reader bindings
      let right ← w.toBool
      pure (.ofBool right)
  | slice operand s => do
    let v ← operand.eval reader bindings
    v.slice s
  | resize mode operand ty => do
    let v ← operand.eval reader bindings
    mode.apply v ty
  | concat high low => do
    let v ← high.eval reader bindings
    let w ← low.eval reader bindings
    pure (v.concat w)
  | select condition whenTrue otherwise => do
    let v ← condition.eval reader bindings
    let holds ← v.toBool
    if holds then whenTrue.eval reader bindings else otherwise.eval reader bindings

def evalAll (reader : Reader σ) (bindings : Bindings) : List Expr → Run σ (List Value)
  | [] => pure []
  | e :: rest => do
    let v ← e.eval reader bindings
    let values ← evalAll reader bindings rest
    pure (v :: values)

end

end Expr

end MachineDescription
