import DeviceSchema.Limits
import DeviceSchema.Text.Blank
import DeviceSchema.Text.Numeral

/-! # Integer expressions

A count or a bound of a description may be written as an integer expression: the
sums, products and signs of the usual grammar

    sum     = product (('+' | '-') product)*
    product = factor (('*' | '/' | '%') factor)*
    factor  = number | '-' factor | '+' factor | '(' sum ')'

over 64-bit integers, where operators of one line group to the left and division
truncates toward zero.  No intermediate value may leave the 64-bit range and the
result has to fit in 32 bits, so a value that `evaluate` gives is the exact one.

The lexemes are read by climbing the precedence of the operators: an operand, and
then operators of at least some precedence, each with what binds stronger behind it.
-/
namespace DeviceSchema.Arithmetic

/-- The units of an expression. -/
inductive Lexeme where
  | number (value : Int)
  | plus
  | minus
  | star
  | slash
  | percent
  | opening
  | closing
deriving DecidableEq, Repr

/-- Why a text is no expression, or has no value. -/
inductive Reason where
  | unexpectedCharacter (c : Char)
  | invalidNumber (literal : String)
  | overflow
  | missingClosing
  | unexpectedLexeme (lexeme : Lexeme)
  | endOfExpression
  | divisionByZero
  | trailingInput
  | tooWide
deriving DecidableEq, Repr

/-- Why no value can be had from an expression. -/
inductive Failure where
  | missingClose
  | missingOpen
  | bad (expression : String) (reason : Reason)
  | tooLong (most : Nat)
deriving DecidableEq, Repr

/-- The word for a lexeme in messages. -/
def Lexeme.word : Lexeme → String
  | number value => "Number(" ++ toString value ++ ")"
  | plus => "Plus"
  | minus => "Minus"
  | star => "Star"
  | slash => "Slash"
  | percent => "Percent"
  | opening => "Open"
  | closing => "Close"

def Reason.message : Reason → String
  | unexpectedCharacter c => "unexpected character '" ++ String.singleton c ++ "'"
  | invalidNumber literal => "invalid number '" ++ literal ++ "'"
  | overflow => "overflow"
  | missingClosing => "expected ')'"
  | unexpectedLexeme lexeme => "unexpected " ++ lexeme.word
  | endOfExpression => "unexpected end of expression"
  | divisionByZero => "division by zero"
  | trailingInput => "trailing input"
  | tooWide => "result does not fit in 32 bits"

def Failure.message : Failure → String
  | missingClose => "Invalid Math Expression, missing ')'"
  | missingOpen => "Invalid Math Expression, missing '('"
  | bad expression reason => "Bad Expression " ++ expression ++ ": " ++ reason.message
  | tooLong most => "Math expression longer than " ++ toString most ++ " characters"

section Lexemes

/-- The lexeme that a character is by itself. -/
def symbol? : Char → Option Lexeme
  | '+' => some .plus
  | '-' => some .minus
  | '*' => some .star
  | '/' => some .slash
  | '%' => some .percent
  | '(' => some .opening
  | ')' => some .closing
  | _ => none

/-- The value of a number: a decimal numeral, or a hexadecimal one after `0x`. -/
def literal? : List Char → Option Nat
  | '0' :: 'x' :: digits => Text.numeral? 16 digits
  | '0' :: 'X' :: digits => Text.numeral? 16 digits
  | digits => Text.numeral? 10 digits

/-- The lexeme of a number, whose value has to fit in 64 bits. -/
def literal (digits : List Char) : Except Reason Lexeme :=
  match (literal? digits).filter (· < Nat.pow 2 63) with
  | some value => .ok (.number value)
  | none => .error (.invalidNumber (String.ofList digits))

/-- The lexemes of an expression.  A number is a maximal run of ASCII letters
and digits that starts with a digit; blanks separate and mean nothing else. -/
def lexemes : List Char → Except Reason (List Lexeme)
  | [] => .ok []
  | c :: rest =>
    if Text.isBlank c then lexemes rest
    else match symbol? c with
      | some lexeme => (lexemes rest).map (lexeme :: ·)
      | none =>
        if c.isDigit then do
          let number ← literal (c :: rest.takeWhile Char.isAlphanum)
          let others ← lexemes (rest.dropWhile Char.isAlphanum)
          return number :: others
        else .error (.unexpectedCharacter c)
termination_by text => text.length
decreasing_by
  · simp
  · simp
  · have := (List.dropWhile_sublist (l := rest) Char.isAlphanum).length_le
    simp only [List.length_cons]
    omega

end Lexemes

section Evaluation

/-- A value that has to fit in 64 bits. -/
def checked (value : Int) : Except Reason Int :=
  if Text.fitsSigned 64 value then .ok value else .error .overflow

/-- Applies an operator.  The remainder has the sign of the dividend; where the
quotient leaves the range, so does the remainder. -/
def apply (operator : Lexeme) (left right : Int) : Except Reason Int :=
  match operator with
  | .plus => checked (left + right)
  | .minus => checked (left - right)
  | .star => checked (left * right)
  | .slash =>
    if right = 0 then .error .divisionByZero else checked (left.tdiv right)
  | .percent =>
    if right = 0 then .error .divisionByZero
    else (checked (left.tdiv right)).map fun _ => left.tmod right
  | _ => .error (.unexpectedLexeme operator)

/-- How strongly a lexeme binds, if it is an operator between operands. -/
def Lexeme.precedence? : Lexeme → Option Nat
  | plus | minus => some 1
  | star | slash | percent => some 2
  | _ => none

/-- The lexemes of an expression, and the position of the next one. -/
structure Evaluator where
  lexemes : Array Lexeme
  position : Nat := 0

/-- A step of the evaluation. -/
abbrev Evaluating := EStateM Reason Evaluator

namespace Evaluator

/-- The next lexeme, which stays the next one. -/
def peek : Evaluating (Option Lexeme) := fun s => .ok s.lexemes[s.position]? s

/-- Moves to the next position. -/
def skip : Evaluating Unit := fun s => .ok () { s with position := s.position + 1 }

/-- Takes the next lexeme.  The position moves on also at the end. -/
def next : Evaluating (Option Lexeme) := do
  let lexeme ← peek
  skip
  return lexeme

/-! The first argument bounds the depth of the recursion. -/

mutual

/-- Evaluates an operand and the operators behind it that bind at least as strongly as
`least`. -/
def expression : Nat → Nat → Evaluating Int
  | 0, _ => throw .endOfExpression
  | depth + 1, least => do
    let left ← operand depth
    climb depth least left

/-- Applies the operators behind `left` as long as they bind at least as strongly as
`least`. -/
def climb : Nat → Nat → Int → Evaluating Int
  | 0, _, _ => throw .endOfExpression
  | depth + 1, least, left => do
    let some operator ← peek | return left
    let some precedence := operator.precedence? | return left
    if precedence < least then return left
    skip
    let right ← expression depth (precedence + 1)
    let left ← ofExcept (apply operator left right)
    climb depth least left

/-- Evaluates a number, a signed operand or an expression in parentheses. -/
def operand : Nat → Evaluating Int
  | 0 => throw .endOfExpression
  | depth + 1 => do
    match ← next with
    | some (.number value) => return value
    | some .minus => do
      let value ← operand depth
      ofExcept (checked (-value))
    | some .plus => operand depth
    | some .opening => do
      let value ← expression depth 1
      match ← next with
      | some .closing => return value
      | _ => throw .missingClosing
    | some lexeme => throw (.unexpectedLexeme lexeme)
    | none => throw .endOfExpression

end

end Evaluator

/-- A depth that no evaluation of the lexemes exceeds: before each lexeme an expression and
an operand may be entered. -/
def depthFor (input : List Lexeme) : Nat := 2 * input.length + 2

/-- The value of a text that is a whole expression. -/
def valueOf (text : List Char) : Except Reason Int := do
  let input ← lexemes text
  match Evaluator.expression (depthFor input) 1 { lexemes := input.toArray } with
  | .error reason _ => .error reason
  | .ok value s =>
    if s.position < s.lexemes.size then .error .trailingInput
    else if Text.fitsSigned 32 value then .ok value
    else .error .tooWide

/-- The value of an expression. -/
def evaluate (expression : String) : Except Failure Int :=
  (valueOf expression.toList).mapError (.bad expression)

end Evaluation
end DeviceSchema.Arithmetic
