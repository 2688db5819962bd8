import MachineDescription.Error.Kind
import MachineDescription.Value.Basic

namespace MachineDescription

/-- The fixed bits of a word: `mask` says which, `bits` what they are. A word is accepted when it
has the width of the pattern and agrees with it on the fixed bits. -/
structure Pattern where
  width : Nat
  mask : Nat
  bits : Nat
  mask_lt : mask < Bits.limit width
  bits_and_mask : bits &&& mask = bits

namespace Pattern

theorem ext {p q : Pattern} (width : p.width = q.width) (mask : p.mask = q.mask)
    (bits : p.bits = q.bits) : p = q := by
  cases p; cases q; cases width; cases mask; cases bits; rfl

instance : DecidableEq Pattern := fun p q =>
  if same : p.width = q.width ∧ p.mask = q.mask ∧ p.bits = q.bits then
    isTrue (ext same.1 same.2.1 same.2.2)
  else isFalse (fun equal => same (by cases equal; exact ⟨rfl, rfl, rfl⟩))

def wildcard (width : Nat) : Pattern :=
  ⟨width, 0, 0, Bits.limit_pos _, rfl⟩

/-- Fix the bit at an index; there is none beyond the width. -/
def fix (p : Pattern) (index : Nat) (bit : Bool) : Pattern :=
  if inside : index < p.width then
    { width := p.width
      mask := Bits.put p.mask index true
      bits := Bits.put p.bits index bit
      mask_lt := Bits.put_lt p.mask_lt inside
      bits_and_mask := by
        apply Nat.eq_of_testBit_eq
        intro other
        have same : (p.bits &&& p.mask).testBit other = p.bits.testBit other := by
          rw [p.bits_and_mask]
        rw [Nat.testBit_and] at same
        rw [Nat.testBit_and, Bits.testBit_put, Bits.testBit_put]
        split
        · simp
        · exact same }
  else p

theorem bits_lt (p : Pattern) : p.bits < Bits.limit p.width := by
  rw [← p.bits_and_mask]
  exact Nat.lt_of_le_of_lt Nat.and_le_right p.mask_lt

def maskValue (p : Pattern) : Value :=
  ⟨.bits p.width, p.mask, p.mask_lt⟩

/-- The fixed bits as a value; an open bit is zero. -/
def value (p : Pattern) : Value :=
  ⟨.bits p.width, p.bits, p.bits_lt⟩

def isFixed (p : Pattern) (index : Nat) : Bool :=
  p.mask.testBit index

def specificity (p : Pattern) : Nat :=
  (List.range p.width).countP p.isFixed

def isFull (p : Pattern) : Bool :=
  p.mask == Bits.ones p.width

/-- The word agrees with the pattern on its fixed bits. -/
def accepts (p : Pattern) (word : Value) : Bool :=
  word.width == p.width && word.pattern &&& p.mask == p.bits

/-- The patterns agree on the bits that both fix. -/
def overlaps (p q : Pattern) : Bool :=
  p.width == q.width &&
    p.bits &&& (p.mask &&& q.mask) == q.bits &&& (p.mask &&& q.mask)

def symbol (p : Pattern) (index : Nat) : Char :=
  if p.isFixed index then (if p.bits.testBit index then '1' else '0') else '?'

def render (p : Pattern) : String :=
  String.ofList ((List.range p.width).reverse.map p.symbol)

instance : ToString Pattern := ⟨render⟩

end Pattern

/-- Why a pattern is no sequence of bytes. -/
inductive PatternFault where
  | wildcards (p : Pattern)
  | notByteAligned (width : Nat)

namespace PatternFault

def kind : PatternFault → ErrorKind
  | wildcards _ => .unsupported
  | notByteAligned _ => .shape

def message : PatternFault → String
  | wildcards p => s!"pattern {p} still contains wildcards"
  | notByteAligned width => s!"a {width}-bit pattern is not byte aligned"

end PatternFault

end MachineDescription
