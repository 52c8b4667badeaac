import Mathlib.Data.List.TakeWhile
import DeviceSchema.Arithmetic
import DeviceSchema.Proofs.Text.Numeral
import DeviceSchema.Proofs.Tree.Changes

/-! # The meaning of integer expressions

An expression is a tree of numbers, signs and operators (`Expression`).  Its **value** is
that of the integers, without any bound, where a division truncates toward zero.  It is
**computable** when no step on the way leaves the integers of 64 bits or divides by zero;
the remainder of the least integer by minus one counts as leaving them, since the quotient
does.

Which trees a text stands for is said in two steps that do not look at how it is read.  A
text **spells** lexemes (`Spells`): blanks mean nothing, and a number takes all letters and
digits that follow its first digit.  Lexemes **derive** a tree (`Derives`) by the grammar

    sum     = product (('+' | '-') product)*
    product = factor (('*' | '/' | '%') factor)*
    factor  = number | '-' factor | '+' factor | '(' sum ')'

in which a sum grows to the right of a shorter sum, so operators group to the left.

The reader of lexemes finds the lexemes that a text spells, and no text spells two lists
(`lexemes_iff`).
-/
namespace DeviceSchema.Arithmetic

/-- The operators between two operands. -/
inductive Operator where
  | add
  | subtract
  | multiply
  | divide
  | remainder
deriving DecidableEq, Repr

/-- An integer expression; parentheses and plus signs leave no trace. -/
inductive Expression where
  | number (value : Int)
  | negated (e : Expression)
  | combined (operator : Operator) (left right : Expression)
deriving DecidableEq, Repr

/-- The integers of a two's complement word of 64 bits. -/
def IsWord (value : Int) : Prop := -2 ^ 63 ≤ value ∧ value < 2 ^ 63

section Meaning

/-- What an operator makes of two integers. -/
def Operator.result : Operator → Int → Int → Int
  | add, left, right => left + right
  | subtract, left, right => left - right
  | multiply, left, right => left * right
  | divide, left, right => left.tdiv right
  | remainder, left, right => left.tmod right

/-- An operator can be applied: no divisor is zero, and the remainder is not asked for
where the quotient is no word. -/
def Operator.Applies : Operator → Int → Int → Prop
  | divide, _, right => right ≠ 0
  | remainder, left, right => right ≠ 0 ∧ ¬ (left = -2 ^ 63 ∧ right = -1)
  | _, _, _ => True

/-- The exact value. -/
def Expression.value : Expression → Int
  | number value => value
  | negated e => -e.value
  | combined operator left right => operator.result left.value right.value

/-- Every step can be made, and what it gives is a word. -/
def Expression.Computable : Expression → Prop
  | number value => IsWord value
  | negated e => e.Computable ∧ IsWord (-e.value)
  | combined operator left right =>
    left.Computable ∧ right.Computable ∧ operator.Applies left.value right.value ∧
      IsWord (operator.result left.value right.value)

theorem Expression.Computable.isWord {e : Expression} (h : e.Computable) : IsWord e.value := by
  cases e with
  | number value => exact h
  | negated e => exact h.2
  | combined operator left right => exact h.2.2.2

end Meaning

section Grammar

/-- The phrases of the grammar. -/
inductive Phrase where
  | sum
  | product
  | factor

/-- The operators that join products to a sum. -/
def additive? : Lexeme → Option Operator
  | .plus => some .add
  | .minus => some .subtract
  | _ => none

/-- The operators that join factors to a product. -/
def multiplicative? : Lexeme → Option Operator
  | .star => some .multiply
  | .slash => some .divide
  | .percent => some .remainder
  | _ => none

/-- The lexemes are a phrase, and `e` is what it stands for. -/
inductive Derives : Phrase → List Lexeme → Expression → Prop
  | product {input e} (h : Derives .product input e) : Derives .sum input e
  | additive {input left lexeme operator input' right} (hleft : Derives .sum input left)
      (hoperator : additive? lexeme = some operator) (hright : Derives .product input' right) :
      Derives .sum (input ++ lexeme :: input') (.combined operator left right)
  | factor {input e} (h : Derives .factor input e) : Derives .product input e
  | multiplicative {input left lexeme operator input' right}
      (hleft : Derives .product input left)
      (hoperator : multiplicative? lexeme = some operator)
      (hright : Derives .factor input' right) :
      Derives .product (input ++ lexeme :: input') (.combined operator left right)
  | number (value : Int) : Derives .factor [.number value] (.number value)
  | negated {input e} (h : Derives .factor input e) :
      Derives .factor (.minus :: input) (.negated e)
  | signed {input e} (h : Derives .factor input e) : Derives .factor (.plus :: input) e
  | enclosed {input e} (h : Derives .sum input e) :
      Derives .factor (.opening :: (input ++ [.closing])) e

end Grammar

section Spelling

/-- The text is a number: a decimal numeral, or a hexadecimal one after `0x`, below
`2 ^ 63`. -/
def IsNumber (run : List Char) (n : Nat) : Prop :=
  n < 2 ^ 63 ∧ (Text.IsNumeral 10 run n ∨
    ∃ x digits, (x = 'x' ∨ x = 'X') ∧ run = '0' :: x :: digits ∧ Text.IsNumeral 16 digits n)

/-- The text is made of the lexemes, with blanks between them.  The run of letters and
digits that begins with a digit belongs to one number as a whole. -/
inductive Spells : List Char → List Lexeme → Prop
  | done : Spells [] []
  | blank {c rest input} (hc : Text.isBlank c = true) (h : Spells rest input) :
      Spells (c :: rest) input
  | symbol {c lexeme rest input} (hc : symbol? c = some lexeme) (h : Spells rest input) :
      Spells (c :: rest) (lexeme :: input)
  | number {c run rest n input} (hstart : c.isDigit = true)
      (hrun : ∀ d ∈ run, d.isAlphanum = true) (hstop : ∀ d ∈ rest.head?, d.isAlphanum = false)
      (hn : IsNumber (c :: run) n) (h : Spells rest input) :
      Spells (c :: (run ++ rest)) (.number n :: input)

theorem literal?_iff {run : List Char} {n : Nat} :
    literal? run = some n ↔ Text.IsNumeral 10 run n ∨
      ∃ x digits, (x = 'x' ∨ x = 'X') ∧ run = '0' :: x :: digits ∧ Text.IsNumeral 16 digits n := by
  -- A numeral with an `x` in it is no decimal one.
  have hexadecimal {x : Char} {digits : List Char} (hx : x = 'x' ∨ x = 'X') :
      ¬ Text.IsNumeral 10 ('0' :: x :: digits) n := by
    rintro ⟨-, ds, hdigits, -⟩
    obtain - | ⟨-, - | ⟨hd, -⟩⟩ := hdigits
    have hnone : Text.digit? 10 x = none := by rcases hx with rfl | rfl <;> decide
    rw [hnone] at hd
    cases hd
  unfold literal?
  split
  · rename_i digits
    rw [Text.numeral?_iff]
    constructor
    · intro h
      exact .inr ⟨'x', digits, .inl rfl, rfl, h⟩
    · rintro (h | ⟨x, digits, -, hrun, h⟩)
      · exact absurd h (hexadecimal (.inl rfl))
      · cases hrun
        exact h
  · rename_i digits
    rw [Text.numeral?_iff]
    constructor
    · intro h
      exact .inr ⟨'X', digits, .inr rfl, rfl, h⟩
    · rintro (h | ⟨x, digits, -, hrun, h⟩)
      · exact absurd h (hexadecimal (.inr rfl))
      · cases hrun
        exact h
  · rename_i hlower hupper
    rw [Text.numeral?_iff]
    constructor
    · exact .inl
    · rintro (h | ⟨x, digits, rfl | rfl, rfl, -⟩)
      · exact h
      · exact absurd rfl (hlower digits)
      · exact absurd rfl (hupper digits)

/-- A run is read as a number if and only if it is one. -/
theorem literal_iff {run : List Char} {lexeme : Lexeme} :
    literal run = .ok lexeme ↔ ∃ n : Nat, IsNumber run n ∧ lexeme = .number n := by
  unfold literal IsNumber
  simp only [← literal?_iff]
  cases hvalue : literal? run with
  | none => simp
  | some value =>
    have hfilter : (some value).filter (· < Nat.pow 2 63) =
        if value < 2 ^ 63 then some value else none := by simp [Option.filter]
    rw [hfilter]
    by_cases hsmall : value < 2 ^ 63
    · rw [if_pos hsmall]
      constructor
      · intro h
        cases h
        exact ⟨value, ⟨hsmall, rfl⟩, rfl⟩
      · rintro ⟨n, ⟨-, hn⟩, rfl⟩
        cases hn
        rfl
    · rw [if_neg hsmall]
      constructor
      · intro h
        cases h
      · rintro ⟨n, ⟨hn, hvalue⟩, -⟩
        cases hvalue
        exact absurd hn hsmall

/-- A run of letters and digits ends where the text goes on with something else. -/
theorem takeWhile_run {run rest : List Char} (hrun : ∀ d ∈ run, d.isAlphanum = true)
    (hstop : ∀ d ∈ rest.head?, d.isAlphanum = false) :
    (run ++ rest).takeWhile Char.isAlphanum = run ∧
      (run ++ rest).dropWhile Char.isAlphanum = rest := by
  rw [List.takeWhile_append_of_pos hrun, List.dropWhile_append_of_pos hrun]
  cases rest with
  | nil => simp
  | cons d rest =>
    have hd : d.isAlphanum = false := hstop d rfl
    simp [hd]

theorem isBlank_of_symbol? {c : Char} {lexeme : Lexeme} (h : symbol? c = some lexeme) :
    Text.isBlank c = false := by
  unfold symbol? at h
  split at h <;> first | decide | cases h

theorem symbol?_of_isDigit {c : Char} (h : c.isDigit = true) : symbol? c = none := by
  unfold symbol?
  split <;> first | rfl | exact absurd h (by decide)

theorem isBlank_of_isDigit {c : Char} (h : c.isDigit = true) : Text.isBlank c = false := by
  simp only [Char.isDigit, Bool.and_eq_true, decide_eq_true_eq] at h
  have hlow : 48 ≤ c.toNat := h.1
  have hhigh : c.toNat ≤ 57 := h.2
  unfold Text.isBlank
  rw [if_pos (by omega)]
  simp
  omega

/-- The lexemes of a text are spelled by it. -/
theorem Spells.of_lexemes {text : List Char} {input : List Lexeme} (h : lexemes text = .ok input) :
    Spells text input := by
  induction text using lexemes.induct generalizing input with
  | case1 =>
    rw [lexemes] at h
    cases h
    exact .done
  | case2 c rest hc ih =>
    rw [lexemes, if_pos hc] at h
    exact .blank hc (ih h)
  | case3 c rest hc lexeme hsymbol ih =>
    rw [lexemes, if_neg hc, hsymbol] at h
    cases hrest : lexemes rest with
    | error reason =>
      rw [hrest] at h
      cases h
    | ok input =>
      rw [hrest] at h
      cases h
      exact .symbol hsymbol (ih hrest)
  | case4 c rest hc hsymbol hdigit ih =>
    rw [lexemes, if_neg hc, hsymbol] at h
    dsimp only at h
    rw [if_pos hdigit] at h
    obtain ⟨number, hnumber, h⟩ := except_bind_ok.mp h
    obtain ⟨others, hothers, h⟩ := except_bind_ok.mp h
    cases h
    obtain ⟨n, hn, rfl⟩ := literal_iff.mp hnumber
    have hstop : ∀ d ∈ (rest.dropWhile Char.isAlphanum).head?, d.isAlphanum = false := by
      intro d hd
      have hhead := List.head?_dropWhile_not Char.isAlphanum rest
      rw [Option.mem_def.mp hd] at hhead
      exact hhead
    have hspells := Spells.number hdigit (fun d hd => List.mem_takeWhile_imp hd) hstop hn
      (ih hothers)
    rwa [List.takeWhile_append_dropWhile] at hspells
  | case5 c rest hc hsymbol hdigit =>
    rw [lexemes, if_neg hc, hsymbol] at h
    dsimp only at h
    rw [if_neg hdigit] at h
    cases h

/-- A text gives the lexemes that it spells. -/
theorem Spells.lexemes_eq {text : List Char} {input : List Lexeme} (h : Spells text input) :
    lexemes text = .ok input := by
  induction h with
  | done => rw [lexemes]
  | blank hc h ih => rw [lexemes, if_pos hc, ih]
  | symbol hc h ih =>
    rw [lexemes, if_neg (by simp [isBlank_of_symbol? hc]), hc]
    dsimp only
    rw [ih]
    rfl
  | number hstart hrun hstop hn h ih =>
    obtain ⟨htake, hdrop⟩ := takeWhile_run hrun hstop
    rw [lexemes, if_neg (by simp [isBlank_of_isDigit hstart]), symbol?_of_isDigit hstart]
    dsimp only
    rw [if_pos hstart, htake, hdrop, literal_iff.mpr ⟨_, hn, rfl⟩, ih]
    rfl

/-- **The lexemes of a text are those that it spells.** -/
theorem lexemes_iff {text : List Char} {input : List Lexeme} :
    lexemes text = .ok input ↔ Spells text input :=
  ⟨Spells.of_lexemes, Spells.lexemes_eq⟩

end Spelling

end DeviceSchema.Arithmetic
