import DeviceSchema.Text.Fixed
import DeviceSchema.Text.Numeral

/-! # Reals of 32 bits

A decimal text stands for the binary real of 32 bits that is nearest to its
value; of two that are equally near, for the one whose last bit is zero.  Every
finite real of this format is a multiple of `2 ^ -149`, so a real is kept as the
**number of such units**, an integer.  The infinities stand where the next real
beyond the finite ones would be.  The order of the reals is then the order of
their units.
-/
namespace DeviceSchema.Text.Real

/-- The units of infinity. -/
def infinity : Int := Nat.pow 2 277

/-- The units of the greatest finite real. -/
def greatest : Int := (Nat.pow 2 24 - 1) * Nat.pow 2 253

/-- The number of units nearest to a quotient of units.  A real has 24 significant
bits. -/
def nearest (numerator denominator : Nat) : Nat := significant 24 numerator denominator

/-- The units of the real nearest to `digits * 10 ^ exponent`.  Powers of ten far
outside the format are not computed. -/
def ofDecimal (digits : Nat) (exponent : Int) : Int :=
  let magnitude := (Nat.repr digits).length + exponent
  if digits = 0 || magnitude < -60 then 0
  else if 60 < magnitude then infinity
  else
    let units :=
      if 0 ≤ exponent then nearest (digits * Nat.pow 10 exponent.toNat * Nat.pow 2 149) 1
      else nearest (digits * Nat.pow 2 149) (Nat.pow 10 (-exponent).toNat)
    min (units : Int) infinity

/-- The exponent after a mantissa; none is written for zero. -/
def exponent? : List Char → Option Int
  | [] => some 0
  | c :: digits => if c = 'e' ∨ c = 'E' then signed? 10 digits else none

/-- The units of a number without a sign. -/
def magnitude? (text : List Char) : Option Int :=
  let word := (String.ofList text).toLower
  if word = "inf" ∨ word = "infinity" then some infinity
  else
    let whole := text.takeWhile Char.isDigit
    let (fraction, rest) := match text.dropWhile Char.isDigit with
      | '.' :: rest => (rest.takeWhile Char.isDigit, rest.dropWhile Char.isDigit)
      | rest => ([], rest)
    do
      let digits ← numeral? 10 (whole ++ fraction)
      let exponent ← exponent? rest
      return ofDecimal digits (exponent - fraction.length)

/-- The units of the real that a text stands for.  A text for what is no number
has none. -/
def ofText? : List Char → Option Int
  | '-' :: rest => (magnitude? rest).map (- ·)
  | '+' :: rest => magnitude? rest
  | text => magnitude? text

end DeviceSchema.Text.Real
