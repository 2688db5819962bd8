import MachineDescription.Proofs.Evaluation
import MachineDescription.Proofs.Shifts
import Mathlib.Data.Nat.ModEq

namespace MachineDescription

/-- Cutting an amount to 64 bits keeps its remainder at a width if it changes nothing, or if the
remainder happens to be that of the largest amount. -/
theorem Value.shiftAmount_mod_eq_iff (amount : Value) (width : Nat) :
    amount.shiftAmount % width = amount.pattern % width ↔
      amount.pattern < Bits.limit 64 ∨ amount.pattern % width = Bits.ones 64 % width := by
  rw [shiftAmount]
  rcases Nat.lt_or_ge amount.pattern (Bits.limit 64) with small | large
  · have whole : min amount.pattern (Bits.ones 64) = amount.pattern :=
      Nat.min_eq_left (Nat.le_sub_one_of_lt small)
    rw [whole]
    exact ⟨fun _ => .inl small, fun _ => rfl⟩
  · have cut : min amount.pattern (Bits.ones 64) = Bits.ones 64 :=
      Nat.min_eq_right (Nat.le_trans (Nat.sub_le _ _) large)
    rw [cut, or_iff_right (Nat.not_lt.mpr large), eq_comm]

namespace Shift

/-- The shifts that count their amount modulo the width. -/
def isCyclic : Shift → Bool
  | right | rotateLeft | rotateRight => true
  | left | rightSigned => false

/-- A value with its bits moved: down, so that nothing comes in at the top, or around the circle. -/
inductive Moves (v : Value) (amount : Nat) (r : Value) : Shift → Prop where
  | right (type : r.ty = v.ty)
      (bits : ∀ index < v.width, r.bit index = v.bit (index + amount)) : Moves v amount r right
  | rotateLeft (type : r.ty = v.ty)
      (bits : ∀ index < v.width, r.bit ((index + amount) % v.width) = v.bit index) :
      Moves v amount r rotateLeft
  | rotateRight (type : r.ty = v.ty)
      (bits : ∀ index < v.width, r.bit index = v.bit ((index + amount) % v.width)) :
      Moves v amount r rotateRight

variable {shift : Shift} {v r : Value} {ty : DataType} {amount : Value}

theorem moves_apply (cyclic : shift.isCyclic = true) (positive : 0 < v.width) (amount : Nat) :
    shift.Moves v (amount % v.width) (shift.apply v amount) := by
  have type := shift.ty_apply v amount
  cases shift with
  | left | rightSigned => cases cyclic
  | right =>
    refine .right type fun index inside => ?_
    change (v.shiftRight amount).bit index = _
    rw [Value.shiftRight, Value.bit_wrap, decide_eq_true inside, Bool.true_and,
      Nat.testBit_shiftRight, Value.reduceAmount_eq positive, Nat.add_comm]
    rfl
  | rotateLeft =>
    refine .rotateLeft type fun index inside => ?_
    have width : (v.rotateLeft amount).width = v.width := congrArg DataType.width type
    have undone := congrArg (Value.bit · index) (Value.rotateRight_rotateLeft positive amount)
    rw [Nat.add_mod_mod, ← undone, Value.bit_rotateRight (width ▸ inside), width]
    rfl
  | rotateRight =>
    refine .rotateRight type fun index inside => ?_
    rw [Nat.add_mod_mod]
    exact Value.bit_rotateRight inside amount

/-- Around the circle, going on by the rest of an amount and then by the amount leads back. -/
theorem add_rest_mod {width amount : Nat} (inside : amount < width) (index : Nat) :
    ((index + (width - amount)) % width + amount) % width = index % width := by
  rw [Nat.mod_add_mod, Nat.add_assoc, Nat.sub_add_cancel (Nat.le_of_lt inside), Nat.add_mod_right]

theorem eq_of_add_mod_eq {width n m index : Nat} (nInside : n < width) (mInside : m < width)
    (same : (index + n) % width = (index + m) % width) : n = m :=
  (Nat.ModEq.add_left_cancel' index same).eq_of_lt_of_lt nInside mInside

/-- If only the top bit is set, the place to which it has gone tells the amount. -/
theorem Moves.amount_eq {n m : Nat} (top : ∀ index, v.bit index = true ↔ index = v.width - 1)
    (nInside : n < v.width) (mInside : m < v.width) (first : shift.Moves v n r)
    (second : shift.Moves v m r) : n = m := by
  have positive : 0 < v.width := Nat.zero_lt_of_lt nInside
  have last : v.width - 1 < v.width := by omega
  have set : v.bit (v.width - 1) = true := (top _).mpr rfl
  cases first with
  | right _ bits =>
    cases second with
    | right _ others =>
      have inside : v.width - 1 - n < v.width := by omega
      have moved : v.width - 1 - n + n = v.width - 1 := by omega
      have same := (others _ inside).symm.trans (bits _ inside)
      rw [moved, set, top] at same
      omega
  | rotateLeft _ bits =>
    cases second with
    | rotateLeft _ others =>
      -- what the second amount has taken to the place of the top bit was the top bit, too
      have target := (bits _ last).trans set
      have back := add_rest_mod mInside ((v.width - 1 + n) % v.width)
      have source := others _ (Nat.mod_lt ((v.width - 1 + n) % v.width + (v.width - m)) positive)
      rw [Nat.mod_mod] at back
      rw [back, target] at source
      rw [(top _).mp source.symm] at back
      exact (eq_of_add_mod_eq mInside nInside back).symm
  | rotateRight _ bits =>
    cases second with
    | rotateRight _ others =>
      have inside := Nat.mod_lt (v.width - 1 + (v.width - n)) positive
      have source := add_rest_mod nInside (v.width - 1)
      rw [Nat.mod_eq_of_lt last] at source
      have same := (others _ inside).symm.trans (bits _ inside)
      rw [source, set, top] at same
      exact eq_of_add_mod_eq nInside mInside (source.trans same.symm)

/-- The value of a type whose only bit is the top one. -/
def top (ty : DataType) : Value :=
  .wrap ty (Bits.limit (ty.width - 1))

theorem bit_top_iff (positive : 0 < ty.width) (index : Nat) :
    (top ty).bit index = true ↔ index = (top ty).width - 1 := by
  change (Value.wrap ty (Bits.limit (ty.width - 1))).bit index = true ↔ index = ty.width - 1
  rw [Value.bit_wrap, Bits.limit, Nat.one_shiftLeft, Nat.testBit_two_pow, Bool.and_eq_true,
    decide_eq_true_eq, decide_eq_true_eq]
  omega

/-- In an expression, the shift moves every value of the type by the amount modulo the width. -/
def Reduces (shift : Shift) (ty : DataType) (amount : Value) : Prop :=
  ∀ {σ : Type} (reader : Reader σ) (bindings : Bindings) (lhs rhs : Expr) (s t u : σ) (v : Value),
    v.ty = ty → (lhs.eval reader bindings).run s = (.ok v, t) →
      (rhs.eval reader bindings).run t = (.ok amount, u) →
        ∃ r, ((Expr.binary (.shift shift) lhs rhs).eval reader bindings).run s = (.ok r, u) ∧
          shift.Moves v (amount.pattern % ty.width) r

/-- In an expression the amount is a value of any width, and is first cut to what 64 bits can hold.
-/
theorem run_shift {σ : Type} {reader : Reader σ} {bindings : Bindings} {lhs rhs : Expr}
    {s t u : σ} (left : (lhs.eval reader bindings).run s = (.ok v, t))
    (right : (rhs.eval reader bindings).run t = (.ok amount, u)) (shift : Shift) :
    ((Expr.binary (.shift shift) lhs rhs).eval reader bindings).run s =
      (.ok (shift.apply v amount.shiftAmount), u) := by
  rw [Expr.eval, Run.run_bind, left]
  change (rhs.eval reader bindings >>= fun w => liftM ((BinaryOp.shift shift).apply v w)).run t = _
  rw [Run.run_bind, right]
  rfl

/-- A shift in an expression moves by the amount that is left of 64 bits, so it reduces an amount
exactly if that leaves the same remainder. -/
theorem reduces_iff (cyclic : shift.isCyclic = true) (positive : 0 < ty.width) :
    shift.Reduces ty amount ↔ amount.shiftAmount % ty.width = amount.pattern % ty.width := by
  constructor
  · intro reduces
    obtain ⟨r, run, moved⟩ :=
      reduces Reader.none .empty (.const (top ty)) (.const amount) () () () (top ty) rfl rfl rfl
    cases (run_shift rfl rfl shift).symm.trans run
    have applied := moves_apply (v := top ty) cyclic positive amount.shiftAmount
    exact applied.amount_eq (bit_top_iff positive) (Nat.mod_lt _ positive) (Nat.mod_lt _ positive)
      moved
  · rintro same σ reader bindings lhs rhs s t u v rfl left right
    rw [← same]
    exact ⟨_, run_shift left right shift, moves_apply cyclic positive _⟩

/-- Right shifts and rotations in an expression move a value by the amount modulo the width if the
amount is below 2⁶⁴ or leaves the remainder of 2⁶⁴ - 1, and only then for every value of the type.
Otherwise they move it by the remainder of 2⁶⁴ - 1. -/
theorem amount_reduced_iff (cyclic : shift.isCyclic = true) (positive : 0 < ty.width)
    (amount : Value) :
    (shift.Reduces ty amount ↔
      amount.pattern < Bits.limit 64 ∨
        amount.pattern % ty.width = (Bits.limit 64 - 1) % ty.width) ∧
    ∀ {σ : Type} (reader : Reader σ) (bindings : Bindings) (lhs rhs : Expr) (s t u : σ) (v : Value),
      v.ty = ty → (lhs.eval reader bindings).run s = (.ok v, t) →
        (rhs.eval reader bindings).run t = (.ok amount, u) →
          ∃ r, ((Expr.binary (.shift shift) lhs rhs).eval reader bindings).run s = (.ok r, u) ∧
            shift.Moves v (min amount.pattern (Bits.limit 64 - 1) % ty.width) r := by
  refine ⟨(reduces_iff cyclic positive).trans (amount.shiftAmount_mod_eq_iff ty.width), ?_⟩
  rintro σ reader bindings lhs rhs s t u v rfl left right
  exact ⟨_, run_shift left right shift, moves_apply cyclic positive _⟩

/-- Around a circle of eight bits, 2⁶⁴ + 7 goes as far as 7 and as 2⁶⁴ - 1. -/
theorem amount_reduced_beyond :
    rotateLeft.Reduces (.bits 8) (.wrap (.uint 65) (Bits.limit 64 + 7)) ∧
      ∃ r, ((Expr.binary (.shift rotateLeft) (.const (.wrap (.bits 8) 0x80))
          (.const (.wrap (.uint 65) (Bits.limit 64 + 7)))).eval Reader.none .empty).run () =
            (.ok r, ()) ∧
        r = .wrap (.bits 8) 0x40 ∧ rotateLeft.Moves (.wrap (.bits 8) 0x80) 7 r := by
  obtain ⟨iff, moves⟩ := @amount_reduced_iff rotateLeft (.bits 8) rfl (by decide)
    (.wrap (.uint 65) (Bits.limit 64 + 7))
  obtain ⟨r, run, moved⟩ := moves Reader.none .empty (.const (.wrap (.bits 8) 0x80)) (.const _)
    () () () _ rfl rfl rfl
  refine ⟨iff.mpr (.inr (by decide)), r, run, ?_, moved⟩
  cases run
  decide

/-- Modulo eight 2⁶⁴ is zero, but the bits go seven places. -/
theorem limit_not_reduced :
    Bits.limit 64 % 8 = 0 ∧
      [right, rotateLeft, rotateRight].map (fun shift =>
        ((Expr.binary (.shift shift) (.const (.wrap (.bits 8) 0x80))
          (.const (.wrap (.bits 65) (Bits.limit 64)))).eval Reader.none .empty).run ()) =
        [(.ok (.wrap (.bits 8) 0x01), ()), (.ok (.wrap (.bits 8) 0x40), ()),
          (.ok (.wrap (.bits 8) 0x01), ())] ∧
      ∀ shift : Shift, shift.isCyclic = true →
        ¬shift.Reduces (.bits 8) (.wrap (.bits 65) (Bits.limit 64)) := by
  refine ⟨by decide, rfl, fun shift cyclic => ?_⟩
  rw [reduces_iff cyclic (by decide)]
  decide

end Shift

end MachineDescription
