import Mathlib.Data.Nat.Digits.Defs
import DeviceSchema.Text.Numeral

/-! # What numerals stand for

A numeral is read from its first digit on, by one multiplication for each digit.  What it
stands for is said here by **positional notation** (`IsNumeral`): the digits, the last one
first, are the coefficients of the powers of the radix.  The reader gives that value and
refuses every other text (`numeral?_iff`).  The readers that allow a sign are built on it, and
so is what they read (`unsigned?_iff`, `signed?_iff`).
-/
namespace DeviceSchema.Text

/-- The text is a non-empty run of digits of the radix, and `n` is their value. -/
def IsNumeral (radix : Nat) (text : List Char) (n : Nat) : Prop :=
  text ≠ [] ∧ ∃ digits : List Nat, List.Forall₂ (fun c d => digit? radix c = some d) text digits ∧
    n = Nat.ofDigits radix digits.reverse

variable {radix : Nat}

/-- What was read before moves up by as many places as there are digits to come. -/
theorem digitsAfter?_iff {value n : Nat} {text : List Char} :
    digitsAfter? radix value text = some n ↔
      ∃ digits : List Nat, List.Forall₂ (fun c d => digit? radix c = some d) text digits ∧
        n = Nat.ofDigits radix digits.reverse + radix ^ digits.length * value := by
  induction text generalizing value with
  | nil =>
    constructor
    · intro h
      cases h
      exact ⟨[], .nil, by simp⟩
    · rintro ⟨digits, hdigits, rfl⟩
      cases hdigits
      simp [digitsAfter?]
  | cons c rest ih =>
    have hplaces (d : Nat) (digits : List Nat) :
        Nat.ofDigits radix digits.reverse + radix ^ digits.length * (value * radix + d) =
          Nat.ofDigits radix (d :: digits).reverse + radix ^ (d :: digits).length * value := by
      rw [List.reverse_cons, Nat.ofDigits_append, Nat.ofDigits_singleton, List.length_reverse,
        List.length_cons, pow_succ]
      ring
    rw [digitsAfter?, Option.bind_eq_some_iff]
    constructor
    · rintro ⟨d, hd, h⟩
      obtain ⟨digits, hdigits, rfl⟩ := ih.mp h
      exact ⟨d :: digits, .cons hd hdigits, hplaces d digits⟩
    · rintro ⟨digits, hdigits, rfl⟩
      cases hdigits with
      | cons hd hdigits => exact ⟨_, hd, ih.mpr ⟨_, hdigits, (hplaces _ _).symm⟩⟩

/-- **A text is read as a numeral if and only if it is one.** -/
theorem numeral?_iff {text : List Char} {n : Nat} :
    numeral? radix text = some n ↔ IsNumeral radix text n := by
  unfold numeral? IsNumeral
  split
  · rename_i hempty
    have hnil : text = [] := List.isEmpty_iff.mp hempty
    simp [hnil]
  · rename_i hempty
    have hne : text ≠ [] := fun h => hempty (List.isEmpty_iff.mpr h)
    simp only [digitsAfter?_iff, Nat.mul_zero, Nat.add_zero, hne, ne_eq, not_false_eq_true,
      true_and]

theorem IsNumeral.digit?_isSome {text : List Char} {n : Nat} (h : IsNumeral radix text n) {c : Char}
    (hc : c ∈ text) : (digit? radix c).isSome := by
  obtain ⟨-, digits, hdigits, -⟩ := h
  induction hdigits with
  | nil => cases hc
  | cons hd hrest ih =>
    rcases List.mem_cons.mp hc with rfl | hc
    · rw [hd]
      rfl
    · exact ih hc

section Signs

/-- The text is a numeral that may have a plus sign, and `n` is its value. -/
inductive IsUnsigned (radix : Nat) : List Char → Nat → Prop
  | bare {text : List Char} {n : Nat} (h : IsNumeral radix text n) : IsUnsigned radix text n
  | plus {digits : List Char} {n : Nat} (h : IsNumeral radix digits n) :
      IsUnsigned radix ('+' :: digits) n

/-- The text is a numeral that may have either sign, and `value` is its value. -/
inductive IsSigned (radix : Nat) : List Char → Int → Prop
  | unsigned {text : List Char} {n : Nat} (h : IsUnsigned radix text n) : IsSigned radix text n
  | minus {digits : List Char} {n : Nat} (h : IsNumeral radix digits n) :
      IsSigned radix ('-' :: digits) (-n)

variable {text : List Char}

/-- No sign is a digit, whatever the radix. -/
theorem not_isNumeral_sign {sign : Char} (hsign : digitWeight sign = none) {n : Nat} :
    ¬ IsNumeral radix (sign :: text) n := by
  intro h
  have hdigit := h.digit?_isSome List.mem_cons_self
  rw [digit?, hsign] at hdigit
  cases hdigit

theorem unsigned?_iff {n : Nat} : unsigned? radix text = some n ↔ IsUnsigned radix text n := by
  unfold unsigned?
  split
  · rw [numeral?_iff]
    constructor
    · exact .plus
    · rintro (h | h)
      · exact absurd h (not_isNumeral_sign (by decide))
      · exact h
  · rename_i hplus
    rw [numeral?_iff]
    constructor
    · exact .bare
    · rintro (h | h)
      · exact h
      · exact absurd rfl (hplus _)

theorem signed?_minus {digits : List Char} :
    signed? radix ('-' :: digits) = (numeral? radix digits).map fun n : Nat => -Int.ofNat n := by
  rw [signed?]
  cases numeral? radix digits <;> rfl

theorem signed?_of_ne_minus (hminus : ∀ digits, text ≠ '-' :: digits) :
    signed? radix text = (unsigned? radix text).map Int.ofNat := by
  unfold signed?
  split
  · exact absurd rfl (hminus _)
  · rw [unsigned?]
    cases numeral? radix _ <;> rfl
  · rename_i hplus
    rw [unsigned?]
    · cases numeral? radix text <;> rfl
    · exact hplus

/-- **A text is read as a numeral with a sign if and only if it is one.** -/
theorem signed?_iff {value : Int} : signed? radix text = some value ↔ IsSigned radix text value := by
  by_cases hminus : ∃ digits, text = '-' :: digits
  · obtain ⟨digits, rfl⟩ := hminus
    rw [signed?_minus, Option.map_eq_some_iff]
    simp only [numeral?_iff]
    constructor
    · rintro ⟨n, h, rfl⟩
      exact .minus h
    · rintro (h | h)
      · cases h with
        | bare h => exact absurd h (not_isNumeral_sign (by decide))
      · exact ⟨_, h, rfl⟩
  · rw [signed?_of_ne_minus fun digits h => hminus ⟨digits, h⟩, Option.map_eq_some_iff]
    simp only [unsigned?_iff]
    constructor
    · rintro ⟨n, h, rfl⟩
      exact .unsigned h
    · rintro (h | h)
      · exact ⟨_, h, rfl⟩
      · exact absurd ⟨_, rfl⟩ hminus

/-- A word is a numeral with few enough bits. -/
theorem word?_iff {bits n : Nat} : word? bits text = some n ↔ IsUnsigned 10 text n ∧ n < 2 ^ bits := by
  rw [word?, Option.filter_eq_some_iff, unsigned?_iff, decide_eq_true_eq]
  rfl

end Signs
end DeviceSchema.Text
