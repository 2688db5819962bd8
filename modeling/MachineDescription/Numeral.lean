import MachineDescription.Bits

namespace MachineDescription

/-- Number of bits of the shortest pattern that holds `n`; zero needs none. -/
def bitLength (n : Nat) : Nat :=
  if n = 0 then 0 else n.log2 + 1

theorem lt_limit_bitLength (n : Nat) : n < Bits.limit (bitLength n) := by
  rw [Bits.limit, Nat.one_shiftLeft, bitLength]
  split
  · omega
  · exact Nat.lt_log2_self

namespace Numeral

/-- The digits from ten on are lower-case letters. -/
def digitChar (digit : Nat) : Char :=
  if digit < 10 then Char.ofNat ('0'.toNat + digit) else Char.ofNat ('a'.toNat + (digit - 10))

/-- The digit that a character stands for in a base; letters of both cases are read. -/
def digit? (base : Nat) (c : Char) : Option Nat :=
  let digit :=
    if '0' ≤ c ∧ c ≤ '9' then some (c.toNat - '0'.toNat)
    else if 'a' ≤ c ∧ c ≤ 'z' then some (c.toNat - 'a'.toNat + 10)
    else if 'A' ≤ c ∧ c ≤ 'Z' then some (c.toNat - 'A'.toNat + 10)
    else none
  digit.filter (· < base)

/-- The digits of `n` that the given number of divisions yields, least significant first. -/
def digitsFrom (base : Nat) : Nat → Nat → List Nat
  | 0, _ => []
  | steps + 1, n => if n = 0 then [] else n % base :: digitsFrom base steps (n / base)

/-- The digits of `n`, most significant first, without leading zeros; zero is the digit 0. -/
def digits (base n : Nat) : List Nat :=
  if n = 0 then [0] else (digitsFrom base (bitLength n) n).reverse

def value (base : Nat) (digits : List Nat) : Nat :=
  digits.foldl (fun total digit => total * base + digit) 0

def write (base n : Nat) : List Char :=
  (digits base n).map digitChar

/-- The number that a non-empty sequence of digits denotes. -/
def read? (base : Nat) (text : List Char) : Option Nat :=
  if text.isEmpty then none else (text.mapM (digit? base)).map (value base)

def pad (count : Nat) (numeral : List Char) : List Char :=
  List.replicate (count - numeral.length) '0' ++ numeral

def hex (n : Nat) : String :=
  String.ofList ('0' :: 'x' :: write 16 n)

end Numeral

end MachineDescription
