import DeviceSchema.Arithmetic
import DeviceSchema.Token.Stream

/-! # Expressions in the token stream

An expression begins with a parenthesis and may span several tokens, which are
joined without blanks until the parentheses balance.
-/
namespace DeviceSchema.Token.Stream

/-- How many parentheses of the text are still open; negative when more were
closed than opened. -/
def openParens (text : List Char) : Int :=
  (text.count '(' : Int) - (text.count ')' : Int)

/-- Joins tokens to `text` until its parentheses balance.  The first argument is
the number of tokens that may still be read: a token adds at least a character,
so there is no need of more than an expression has characters. -/
def gather : Nat → String → Stream → Except Arithmetic.Failure String × Stream
  | 0, _, s => (.error (.tooLong Ceiling.expressionLength), s)
  | tokens + 1, text, s =>
    if text.length > 0 && s.peekStartsWith '"' then (.error .missingClose, s)
    else match s.next with
      | (none, s) => (.error .missingClose, s)
      | (some token, s) =>
        let text := text ++ token.text
        if text.length > Ceiling.expressionLength then
          (.error (.tooLong Ceiling.expressionLength), s)
        else
          let depth := openParens text.toList
          if depth = 0 then (.ok text, s)
          else if depth < 0 then (.error .missingOpen, s)
          else gather tokens text s

/-- Reads the text of an expression. -/
def readExpression (s : Stream) : Except Arithmetic.Failure String × Stream :=
  s.gather (Ceiling.expressionLength + 1) ""

/-- Reads an expression and gives its value. -/
def nextExpression (s : Stream) : Except Arithmetic.Failure Int × Stream :=
  let (text, s) := s.readExpression
  (text.bind Arithmetic.evaluate, s)

end DeviceSchema.Token.Stream
