import DeviceSchema.Tree.Bounds
import DeviceSchema.Proofs.Arithmetic.Evaluation
import DeviceSchema.Proofs.Text.Numeral

/-! # What bounds and defaults stand for

The integers of a description are written in decimals, with or without a sign, or in
hexadecimals behind `0x` (`IsInteger`).  A text that **is** an integer stands for one integer,
however many digits it has.

The reader has only words of 64 bits for the integers that it compares with a range.  It tells
an integer that is such a word by its value: below the range, above it, or in it.  Every other
text is malformed (`integerIn_by_value`).  Two consequences are easily overlooked: a numeral beyond
64 bits is malformed although its value is above or below the range, and the sign of a
hexadecimal numeral is allowed behind the `0x` (`integerIn_beyond_words_small`).
-/
namespace DeviceSchema
open Text (IsSigned IsNumeral)
open Arithmetic (IsWord fitsSigned_word)

/-- The text is an integer of any size, and `value` is what it stands for. -/
inductive IsInteger : List Char → Int → Prop
  | decimal {text : List Char} {value : Int} (h : IsSigned 10 text value) : IsInteger text value
  | hexadecimal {digits : List Char} {value : Int} (h : IsSigned 16 digits value) :
      IsInteger ('0' :: 'x' :: digits) value

section Reading

/-- An `x` is no decimal digit. -/
theorem not_isSigned_hexadecimal {digits : List Char} {value : Int} :
    ¬ IsSigned 10 ('0' :: 'x' :: digits) value := by
  rintro (h | h)
  cases h with
  | bare h =>
    have hdigit := h.digit?_isSome (List.mem_cons_of_mem _ List.mem_cons_self)
    exact absurd hdigit (by decide)

/-- **A text is read as an integer if and only if it is one that fits in a word.** -/
theorem integerOfText?_iff {text : String} {value : Int} :
    integerOfText? text = some value ↔ IsInteger text.toList value ∧ IsWord value := by
  unfold integerOfText?
  rw [Option.filter_eq_some_iff, fitsSigned_word]
  refine and_congr_left fun _ => ?_
  split
  · rename_i digits hdigits
    rw [hdigits, Text.signed?_iff]
    constructor
    · exact .hexadecimal
    · rintro (h | h)
      · exact absurd h not_isSigned_hexadecimal
      · exact h
  · rename_i hdecimal
    rw [Text.signed?_iff]
    constructor
    · exact .decimal
    · intro h
      generalize hchars : text.toList = chars at h hdecimal ⊢
      cases h with
      | decimal h => exact h
      | hexadecimal h => exact absurd rfl (hdecimal _)

theorem integerOfText?_eq_none_iff {text : String} :
    integerOfText? text = none ↔ ∀ value, IsInteger text.toList value → ¬ IsWord value := by
  rw [Option.eq_none_iff_forall_ne_some]
  simp only [ne_eq, integerOfText?_iff, not_and]

end Reading

section Telling
variable {range : IntegerRange} {bound : Bound} {text : String} {value : Int}

theorem integerIn_of_none (h : integerOfText? text = none) :
    integerIn range bound text = .error (.malformedValue bound) := by
  rw [integerIn, h]

theorem integerIn_of_some (h : integerOfText? text = some value) :
    integerIn range bound text =
      if value < range.low then .error (.belowMinimum bound)
      else if range.high < value then .error (.aboveMaximum bound)
      else .ok value := by
  rw [integerIn, h]

theorem integerIn_ok_iff : integerIn range bound text = .ok value ↔
    IsInteger text.toList value ∧ IsWord value ∧ range.low ≤ value ∧ value ≤ range.high := by
  rw [← and_assoc, ← integerOfText?_iff]
  cases htext : integerOfText? text with
  | none => simp [integerIn_of_none htext]
  | some v =>
    rw [integerIn_of_some htext]
    split_ifs <;> grind

theorem integerIn_below_iff : integerIn range bound text = .error (.belowMinimum bound) ↔
    ∃ value, IsInteger text.toList value ∧ IsWord value ∧ value < range.low := by
  simp only [← and_assoc, ← integerOfText?_iff]
  cases htext : integerOfText? text with
  | none => simp [integerIn_of_none htext]
  | some v =>
    rw [integerIn_of_some htext]
    split_ifs <;> grind

theorem integerIn_above_iff : integerIn range bound text = .error (.aboveMaximum bound) ↔
    ∃ value, IsInteger text.toList value ∧ IsWord value ∧ range.low ≤ value ∧
      range.high < value := by
  simp only [← and_assoc, ← integerOfText?_iff]
  cases htext : integerOfText? text with
  | none => simp [integerIn_of_none htext]
  | some v =>
    rw [integerIn_of_some htext]
    split_ifs <;> grind

theorem integerIn_malformed_iff : integerIn range bound text = .error (.malformedValue bound) ↔
    ∀ value, IsInteger text.toList value → ¬ IsWord value := by
  rw [← integerOfText?_eq_none_iff]
  cases htext : integerOfText? text with
  | none => simp [integerIn_of_none htext]
  | some v =>
    rw [integerIn_of_some htext]
    split_ifs <;> simp

/-- **An integer that fits in a word is told by its value, and every other text is malformed.** -/
theorem integerIn_by_value (range : IntegerRange) (bound : Bound) (text : String) :
    (∀ value, integerIn range bound text = .ok value ↔
      IsInteger text.toList value ∧ IsWord value ∧ range.low ≤ value ∧ value ≤ range.high) ∧
    (integerIn range bound text = .error (.belowMinimum bound) ↔
      ∃ value, IsInteger text.toList value ∧ IsWord value ∧ value < range.low) ∧
    (integerIn range bound text = .error (.aboveMaximum bound) ↔
      ∃ value, IsInteger text.toList value ∧ IsWord value ∧ range.low ≤ value ∧
        range.high < value) ∧
    (integerIn range bound text = .error (.malformedValue bound) ↔
      ∀ value, IsInteger text.toList value → ¬ IsWord value) :=
  ⟨fun _ => integerIn_ok_iff, integerIn_below_iff, integerIn_above_iff, integerIn_malformed_iff⟩

/-- **A numeral beyond the words is malformed, and `0x` with a sign behind it is not.** -/
theorem integerIn_beyond_words_small :
    (IsSigned 10 "9223372036854775808".toList (2 ^ 63) ∧ IntegerRange.signed32.high < 2 ^ 63 ∧
      integerIn .signed32 .max "9223372036854775808" = .error (.malformedValue .max)) ∧
    ((∀ value, ¬ IsSigned 10 "0x-5".toList value) ∧ (∀ n, ¬ IsNumeral 16 "-5".toList n) ∧
      integerIn .signed32 .max "0x-5" = .ok (-5)) := by
  have hsigned : Text.signed? 10 "9223372036854775808".toList = some (2 ^ 63) := by decide +kernel
  refine ⟨⟨Text.signed?_iff.mp hsigned, by decide, by decide +kernel⟩, ?_, ?_, by decide +kernel⟩
  · exact fun value => not_isSigned_hexadecimal
  · exact fun n => Text.not_isNumeral_sign (by decide)

end Telling
end DeviceSchema
