import DeviceSchema.Text.Real
import DeviceSchema.Tree.Defect

/-! # Bounds and bounded values

The bounds and the default of an element are written as texts.  Integers are
decimal, or hexadecimal after `0x`, and lie in the range of their type; reals are
decimal.  A bound that is missing lies at the end of the range, and the default has
to lie between the bounds.
-/
namespace DeviceSchema

/-- The integers from `low` to `high`. -/
structure IntegerRange where
  low : Int
  high : Int
deriving DecidableEq, Repr

namespace IntegerRange

/-- The integers of 32 bits with a sign. -/
def signed32 : IntegerRange := ⟨-Nat.pow 2 31, Nat.pow 2 31 - 1⟩

/-- The integers of 32 bits without a sign. -/
def unsigned32 : IntegerRange := ⟨0, Nat.pow 2 32 - 1⟩

end IntegerRange

/-- Reads an integer of at most 64 bits. -/
def integerOfText? (text : String) : Option Int :=
  let value := match text.toList with
    | '0' :: 'x' :: digits => Text.signed? 16 digits
    | digits => Text.signed? 10 digits
  value.filter (Text.fitsSigned 64)

/-- Reads an integer of a range; `bound` says what the integer is for. -/
def integerIn (range : IntegerRange) (bound : Bound) (text : String) : Except Defect Int :=
  match integerOfText? text with
  | none => .error (.malformedValue bound)
  | some value =>
    if value < range.low then .error (.belowMinimum bound)
    else if range.high < value then .error (.aboveMaximum bound)
    else .ok value

/-- Reads a real, in units. -/
def realOf (bound : Bound) (text : String) : Except Defect Int :=
  match Text.Real.ofText? text.toList with
  | none => .error (.malformedValue bound)
  | some units => .ok units

/-- Reads a bound that may be missing and then lies at `limit`. -/
def boundOr (limit : Int) (read : String → Except Defect Int) :
    Option String → Except Defect Int
  | none => .ok limit
  | some text => read text

/-- The default has to lie between the bounds. -/
def checkBetween (min max value : Int) : Except Defect Unit :=
  if min ≤ value ∧ value ≤ max then .ok () else .error .defaultOutOfRange

end DeviceSchema
