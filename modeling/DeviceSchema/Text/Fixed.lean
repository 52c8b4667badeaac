/-! # Fixed places and rounding

A decimal number with a fixed number of places is kept as a whole number of its
last place.  Quotients are rounded to the nearest whole number, or to the nearest
one with few significant bits; of two that are equally near, the even one counts.
-/
namespace DeviceSchema.Text

/-- A numeral of at least `width` digits, filled with zeros from the left. -/
def padded (width value : Nat) : String :=
  let digits := Nat.repr value
  String.ofList (List.replicate (width - digits.length) '0') ++ digits

/-- The number of `units` of the last of `places` places. -/
def fixed (units places : Nat) : String :=
  if places = 0 then toString units
  else
    let scale := Nat.pow 10 places
    toString (units / scale) ++ "." ++ padded places (units % scale)

/-- The quotient rounded to a whole number; of two that are equally near, the
even one. -/
def roundedQuotient (numerator denominator : Nat) : Nat :=
  let quotient := numerator / denominator
  let twice := 2 * (numerator % denominator)
  if twice < denominator then quotient
  else if denominator < twice then quotient + 1
  else quotient + quotient % 2

/-- The whole number of at most `bits` significant bits that is nearest to a
quotient.  Beyond so many bits, only multiples of a power of two have few enough. -/
def significant (bits numerator denominator : Nat) : Nat :=
  let step := Nat.pow 2 ((numerator / denominator).log2 + 1 - bits)
  roundedQuotient numerator (denominator * step) * step

end DeviceSchema.Text
