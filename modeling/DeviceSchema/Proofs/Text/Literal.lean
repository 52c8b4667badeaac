import Mathlib.Data.List.Forall2
import Mathlib.Data.Nat.Digits.Defs
import DeviceSchema.Proofs.Text.Numeral

/-! # Constants and string literals of C

Generated code is C, and a text that is put into it says there what the rules of C make of it.
The rules for the two kinds of initializers that defaults become are given here: integer
constants, with or without a sign (`IsExpression`), and string literals (`IsStringLiteral`).
Both are relations between a text and what it stands for, and are meant for texts alone: a
default is never more than one constant or one literal, so other expressions, suffixes of
constants and literals side by side do not occur.

A description and a C program agree on how some texts are read, but not on all.  A zero in
front of a numeral makes it octal in C, so a decimal numeral means the same only if no zero
leads it or its value is below eight (`isConstant_numeral_iff`).  A backslash stands for what
comes behind it, so a literal says what stands between its quotes only if no backslash is among
it, no quote and no line end (`spells_self_iff`).
-/
namespace DeviceSchema.Text

/-! ## String literals -/

section Strings

/-- The escape sequences that are one character, by numbers in ASCII, and what they stand for:
the marks `'`, `"`, `?` and the backslash for themselves, and the letters `a`, `b`, `f`, `n`,
`r`, `t` and `v` for control characters. -/
def simpleEscapes : List (Nat × Nat) :=
  [(39, 39), (34, 34), (63, 63), (92, 92), (97, 7), (98, 8), (102, 12), (110, 10), (114, 13),
    (116, 9), (118, 11)]

/-- What may stand behind a backslash, and the character that it makes. -/
inductive IsEscape : List Char → Char → Prop
  | simple {mark c : Char} (h : (mark.toNat, c.toNat) ∈ simpleEscapes) : IsEscape [mark] c
  | octal {digits : List Char} {n : Nat} (hlength : digits.length ≤ 3)
      (hn : IsNumeral 8 digits n) : IsEscape digits (Char.ofNat n)
  | hexadecimal {digits : List Char} {n : Nat} (hn : IsNumeral 16 digits n) :
      IsEscape ('x' :: digits) (Char.ofNat n)
  | short {digits : List Char} {n : Nat} (hlength : digits.length = 4)
      (hn : IsNumeral 16 digits n) : IsEscape ('u' :: digits) (Char.ofNat n)
  | long {digits : List Char} {n : Nat} (hlength : digits.length = 8)
      (hn : IsNumeral 16 digits n) : IsEscape ('U' :: digits) (Char.ofNat n)

/-- A character that stands for itself in a literal. -/
def IsPlain (c : Char) : Prop := c ≠ '"' ∧ c ≠ '\\' ∧ c ≠ '\n'

/-- What stands between the quotes of a literal makes these characters.  An escape sequence is
as long as it can be. -/
inductive Spells : List Char → List Char → Prop
  | nil : Spells [] []
  | plain {c : Char} {body chars : List Char} (hc : IsPlain c) (h : Spells body chars) :
      Spells (c :: body) (c :: chars)
  | escape {mark body chars : List Char} {c : Char} (hmark : IsEscape mark c)
      (hlongest : ∀ next ∈ body.head?, ∀ d, ¬ IsEscape (mark ++ [next]) d)
      (h : Spells body chars) : Spells ('\\' :: mark ++ body) (c :: chars)

/-- The text is a string literal, and stands for these characters. -/
def IsStringLiteral (text chars : List Char) : Prop :=
  ∃ body, text = '"' :: body ++ ['"'] ∧ Spells body chars

variable {body chars : List Char}

theorem IsEscape.ne_nil {mark : List Char} {c : Char} (h : IsEscape mark c) : mark ≠ [] := by
  cases h with
  | octal _ hn => exact hn.1
  | simple | hexadecimal | short | long => exact List.cons_ne_nil _ _

/-- An escape sequence is longer than what it stands for. -/
theorem Spells.length_lt_or_eq (h : Spells body chars) :
    chars.length < body.length ∨ body = chars ∧ ∀ c ∈ body, IsPlain c := by
  induction h with
  | nil => exact .inr ⟨rfl, nofun⟩
  | plain hc h ih =>
    rcases ih with hlt | ⟨rfl, hplain⟩
    · exact .inl (Nat.succ_lt_succ hlt)
    · exact .inr ⟨rfl, List.forall_mem_cons.mpr ⟨hc, hplain⟩⟩
  | @escape mark body chars c hmark hlongest h ih =>
    have hpos : 0 < mark.length := List.length_pos_iff.mpr hmark.ne_nil
    have hle : chars.length ≤ body.length := by
      rcases ih with hlt | ⟨rfl, -⟩
      · exact hlt.le
      · exact le_rfl
    refine .inl ?_
    rw [List.cons_append, List.length_cons, List.length_cons, List.length_append]
    omega

/-- **What stands between the quotes is what the literal stands for if and only if each of its
characters stands for itself.** -/
theorem spells_self_iff : Spells body body ↔ ∀ c ∈ body, IsPlain c := by
  constructor
  · intro h
    rcases h.length_lt_or_eq with hlt | ⟨-, hplain⟩
    · exact absurd hlt (lt_irrefl _)
    · exact hplain
  · intro h
    induction body with
    | nil => exact .nil
    | cons c body ih =>
      rw [List.forall_mem_cons] at h
      exact .plain h.1 (ih h.2)

theorem isStringLiteral_quoted_iff :
    IsStringLiteral ('"' :: body ++ ['"']) chars ↔ Spells body chars := by
  constructor
  · rintro ⟨body', hbody, h⟩
    obtain rfl := List.append_cancel_right (List.cons.inj hbody).2
    exact h
  · exact fun h => ⟨body, rfl, h⟩

end Strings

/-! ## Integer constants -/

section Integers

/-- The text is an integer constant: decimal, octal behind a zero or hexadecimal behind `0x`. -/
inductive IsConstant : List Char → Nat → Prop
  | decimal {c : Char} {rest : List Char} {n : Nat} (hc : c ≠ '0')
      (hn : IsNumeral 10 (c :: rest) n) : IsConstant (c :: rest) n
  | octal {rest : List Char} {n : Nat} (hn : IsNumeral 8 ('0' :: rest) n) :
      IsConstant ('0' :: rest) n
  | hexadecimal {x : Char} {digits : List Char} {n : Nat} (hx : x = 'x' ∨ x = 'X')
      (hn : IsNumeral 16 digits n) : IsConstant ('0' :: x :: digits) n

/-- The text is a constant with or without a sign.  Octal and hexadecimal constants of more than
31 bits can be unsigned, and no sign makes them negative then. -/
inductive IsExpression : List Char → Int → Prop
  | bare {text : List Char} {n : Nat} (h : IsConstant text n) : IsExpression text n
  | plus {text : List Char} {n : Nat} (h : IsConstant text n) : IsExpression ('+' :: text) n
  | minus {text : List Char} {n : Nat} (h : IsConstant text n)
      (hsigned : text.head? ≠ some '0' ∨ n < 2 ^ 31) : IsExpression ('-' :: text) (-n)

variable {text : List Char} {n : Nat}

/-- Digits of eight are digits of ten, with the same value. -/
theorem digit?_eight_iff {c : Char} {d : Nat} :
    digit? 8 c = some d ↔ digit? 10 c = some d ∧ d < 8 := by
  simp only [digit?, Option.filter_eq_some_iff, decide_eq_true_eq]
  constructor
  · rintro ⟨hc, hd⟩
    exact ⟨⟨hc, by omega⟩, hd⟩
  · rintro ⟨⟨hc, -⟩, hd⟩
    exact ⟨hc, hd⟩

theorem forall₂_digit?_eight_iff {digits : List Nat} :
    List.Forall₂ (fun c d => digit? 8 c = some d) text digits ↔
      List.Forall₂ (fun c d => digit? 10 c = some d) text digits ∧ ∀ d ∈ digits, d < 8 := by
  induction text generalizing digits with
  | nil => cases digits <;> simp
  | cons c rest ih =>
    cases digits with
    | nil => simp
    | cons d digits =>
      rw [List.forall₂_cons, List.forall₂_cons, ih, digit?_eight_iff, List.forall_mem_cons]
      exact and_and_and_comm

/-- The powers of eight and of ten differ from the second digit on. -/
theorem ofDigits_eight_eq_ten_iff {digits : List Nat} :
    (∀ d ∈ digits, d < 8) ∧ Nat.ofDigits 8 digits = Nat.ofDigits 10 digits ↔
      Nat.ofDigits 10 digits < 8 := by
  cases digits with
  | nil => simp
  | cons last more =>
    have hmono : Nat.ofDigits 8 more ≤ Nat.ofDigits 10 more :=
      Nat.ofDigits_monotone more (by decide)
    rw [Nat.ofDigits_cons, Nat.ofDigits_cons, List.forall_mem_cons]
    constructor
    · rintro ⟨⟨hlast, -⟩, heq⟩
      omega
    · intro hlt
      have hzero : Nat.ofDigits 10 more = 0 := by omega
      have hmore : ∀ d ∈ more, d = 0 := Nat.digits_zero_of_eq_zero (by decide) hzero
      refine ⟨⟨by omega, fun d hd => ?_⟩, by omega⟩
      rw [hmore d hd]
      decide

/-- **A decimal numeral means the same in octal if and only if it is less than eight.** -/
theorem isNumeral_eight_iff (h : IsNumeral 10 text n) : IsNumeral 8 text n ↔ n < 8 := by
  obtain ⟨hne, digits, hdigits, rfl⟩ := h
  rw [← ofDigits_eight_eq_ten_iff]
  simp only [IsNumeral, forall₂_digit?_eight_iff, List.mem_reverse]
  constructor
  · rintro ⟨-, digits', ⟨hdigits', hlt⟩, heq⟩
    obtain rfl : digits' = digits := by
      refine List.right_unique_forall₂' (fun c d d' hd hd' => ?_) hdigits' hdigits
      exact Option.some.inj (hd.symm.trans hd')
    exact ⟨hlt, heq.symm⟩
  · rintro ⟨hlt, heq⟩
    exact ⟨hne, digits, ⟨hdigits, hlt⟩, heq.symm⟩

theorem IsNumeral.unique {radix m : Nat} (h : IsNumeral radix text n)
    (h' : IsNumeral radix text m) : n = m :=
  Option.some.inj ((numeral?_iff.mpr h).symm.trans (numeral?_iff.mpr h'))

/-- **A decimal numeral is a constant of its value if and only if no zero leads it, or its value
is below eight.** -/
theorem isConstant_numeral_iff (h : IsNumeral 10 text n) :
    IsConstant text n ↔ text.head? ≠ some '0' ∨ n < 8 := by
  rw [← isNumeral_eight_iff h]
  cases text with
  | nil => exact absurd rfl h.1
  | cons c rest =>
    rw [List.head?_cons, ne_eq, Option.some.injEq]
    constructor
    · rintro (⟨hc, -⟩ | hn | ⟨hx, -⟩)
      · exact .inl hc
      · exact .inr hn
      · have hdigit := h.digit?_isSome (List.mem_cons_of_mem _ List.mem_cons_self)
        rcases hx with rfl | rfl <;> exact absurd hdigit (by decide)
    · rintro (hc | hn)
      · exact .decimal hc h
      · by_cases hc : c = '0'
        · subst hc
          exact .octal hn
        · exact .decimal hc h

/-- No constant begins with a sign. -/
theorem not_isConstant_sign {sign : Char} (hsign : digitWeight sign = none) :
    ¬ IsConstant (sign :: text) n := by
  rintro (⟨-, hn⟩ | hn | _)
  · exact not_isNumeral_sign hsign hn
  · exact not_isNumeral_sign hsign hn
  · cases hsign

variable {value : Int}

theorem isExpression_bare_iff (hplus : text.head? ≠ some '+') (hminus : text.head? ≠ some '-') :
    IsExpression text value ↔ ∃ n : Nat, value = n ∧ IsConstant text n := by
  constructor
  · rintro (h | h | h)
    · exact ⟨_, rfl, h⟩
    · exact absurd rfl hplus
    · exact absurd rfl hminus
  · rintro ⟨n, rfl, h⟩
    exact .bare h

theorem isExpression_plus_iff :
    IsExpression ('+' :: text) value ↔ ∃ n : Nat, value = n ∧ IsConstant text n := by
  constructor
  · rintro (h | h | _)
    · exact absurd h (not_isConstant_sign rfl)
    · exact ⟨_, rfl, h⟩
  · rintro ⟨n, rfl, h⟩
    exact .plus h

theorem isExpression_minus_iff : IsExpression ('-' :: text) value ↔
    ∃ n : Nat, value = -n ∧ IsConstant text n ∧ (text.head? ≠ some '0' ∨ n < 2 ^ 31) := by
  constructor
  · rintro (h | _ | ⟨h, hsigned⟩)
    · exact absurd h (not_isConstant_sign rfl)
    · exact ⟨_, rfl, h, hsigned⟩
  · rintro ⟨n, rfl, h, hsigned⟩
    exact .minus h hsigned

end Integers
end DeviceSchema.Text
