/-! # Numerals

A **numeral** of a radix is a non-empty run of ASCII digits of that radix;
letters stand for the digits from ten on, in either case.  The readers here take
a whole text or nothing: `numeral?` reads a numeral, `unsigned?` allows a plus
sign in front of it and `signed?` either sign.  Their values are exact; a caller
that has only so many bits tests the range afterwards.
-/
namespace DeviceSchema.Text

/-- The value of an ASCII digit or letter as a digit. -/
def digitWeight (c : Char) : Option Nat :=
  if '0' ≤ c ∧ c ≤ '9' then some (c.toNat - '0'.toNat)
  else if 'a' ≤ c ∧ c ≤ 'z' then some (c.toNat - 'a'.toNat + 10)
  else if 'A' ≤ c ∧ c ≤ 'Z' then some (c.toNat - 'A'.toNat + 10)
  else none

/-- The value of a digit of `radix`. -/
def digit? (radix : Nat) (c : Char) : Option Nat :=
  (digitWeight c).filter (· < radix)

/-- Reads digits after a part of the numeral whose value is `value`. -/
def digitsAfter? (radix value : Nat) : List Char → Option Nat
  | [] => some value
  | c :: rest => (digit? radix c).bind fun d => digitsAfter? radix (value * radix + d) rest

/-- The value of a numeral. -/
def numeral? (radix : Nat) (text : List Char) : Option Nat :=
  if text.isEmpty then none else digitsAfter? radix 0 text

/-- The value of a numeral that may have a plus sign. -/
def unsigned? (radix : Nat) : List Char → Option Nat
  | '+' :: digits => numeral? radix digits
  | digits => numeral? radix digits

/-- The value of a numeral that may have a sign. -/
def signed? (radix : Nat) : List Char → Option Int
  | '-' :: digits => (numeral? radix digits).map fun n => -(n : Int)
  | '+' :: digits => (numeral? radix digits).map fun n => (n : Int)
  | digits => (numeral? radix digits).map fun n => (n : Int)

/-- The integers of a two's complement word of `bits` bits. -/
def fitsSigned (bits : Nat) (value : Int) : Bool :=
  -(Nat.pow 2 (bits - 1) : Int) ≤ value && value < Nat.pow 2 (bits - 1)

/-- A signed decimal numeral whose value fits in 32 bits. -/
def int32? (text : List Char) : Option Int :=
  (signed? 10 text).filter (fitsSigned 32)

/-- A decimal numeral whose value fits in `bits` bits without a sign. -/
def word? (bits : Nat) (text : List Char) : Option Nat :=
  (unsigned? 10 text).filter (· < Nat.pow 2 bits)

end DeviceSchema.Text
