import DeviceSchema.Limits
import DeviceSchema.Place
import DeviceSchema.Text.Blank
import DeviceSchema.Text.Lines
import DeviceSchema.Text.Numeral

/-! # The token stream

A **token** is a word of the source together with the place where it starts.  A
**stream** reads the tokens of a source one after another, holds at most one
token that was handed back, and can also read a quoted text, whose blanks count,
from the raw line.

Places are kept as what is left to read: a `Cursor` is the rest of a line and the
lines below it.  Reading never looks back, except that a quoted text is read from
where a token that was handed back starts.
-/
namespace DeviceSchema.Token

/-- A line of the source. -/
structure Line where
  /-- Its number, counted from one. -/
  number : Nat
  text : List Char
deriving DecidableEq, Repr

/-- A place to read from. -/
structure Cursor where
  line : Nat
  column : Nat
  /-- What is left of the line. -/
  rest : List Char
  /-- The lines after it. -/
  below : List Line
deriving DecidableEq, Repr

/-- Why tokens cannot be read. -/
inductive Fault where
  /-- An integer was called for; `token` is empty at the end of the source. -/
  | notAnInteger (token : String) (line : Nat)
  | tokenTooLong (line length most : Nat)
  /-- A token was handed back while another one waits. -/
  | alreadyHandedBack (line : Nat)
deriving DecidableEq, Repr

namespace Fault

/-- The line on which the fault was found. -/
def line : Fault → Nat
  | notAnInteger _ line | tokenTooLong line _ _ | alreadyHandedBack line => line

def message : Fault → String
  | notAnInteger token _ => "Not an integer (expect an integer value): " ++ token
  | tokenTooLong line length most =>
    "Token too long on line " ++ toString line ++ ": " ++ toString length ++
      " characters (max " ++ toString most ++ ")"
  | alreadyHandedBack line =>
    "Token pushed back while another is pending on line " ++ toString line

end Fault

namespace Cursor

/-- The start of a line. -/
def atLine (line : Line) (below : List Line) : Cursor := ⟨line.number, 1, line.text, below⟩

/-- Moves over blanks to the next word of the line, if the line has one. -/
def word? (c : Cursor) : Option Cursor :=
  let rest := Text.skipBlanks c.rest
  if rest.isEmpty then none
  else some { c with column := c.column + (c.rest.takeWhile Text.isBlank).length, rest := rest }

/-- Moves over `count` characters of the line. -/
def skip (c : Cursor) (count : Nat) : Cursor :=
  { c with column := c.column + count, rest := c.rest.drop count }

/-- The text between the first two quotes of the rest of the line, and the place
after the second. -/
def quoted? (c : Cursor) : Option (List Char × Cursor) :=
  let lead := c.rest.takeWhile (· ≠ '"')
  match c.rest.dropWhile (· ≠ '"') with
  | [] => none
  | _ :: afterOpen =>
    let body := afterOpen.takeWhile (· ≠ '"')
    match afterOpen.dropWhile (· ≠ '"') with
    | [] => none
    | _ :: rest => some (body, { c with column := c.column + lead.length + body.length + 2, rest })

end Cursor
end Token

/-- A word of the source and the place where it starts. -/
structure Token where
  text : String
  start : Token.Cursor
deriving DecidableEq, Repr

namespace Token

/-- The line of the token. -/
def line (t : Token) : Nat := t.start.line

/-- The column of the token's first character. -/
def column (t : Token) : Nat := t.start.column

/-- The stretch of the source that the token covers. -/
def span (t : Token) : Span :=
  ⟨⟨t.line, t.column⟩, Position.advance ⟨t.line, t.column⟩ t.text⟩

def toJson (t : Token) : Json :=
  .object [("text", .text t.text), ("line", .count t.line), ("column", .count t.column),
    ("span", .text t.span.render)]

/-- The token at a cursor that stands on a word. -/
def ofCursor (c : Cursor) : Token := ⟨String.ofList (Text.firstWord c.rest), c⟩

/-- What is left to read of a source. -/
structure Stream where
  /-- Where reading goes on, once a line has been entered. -/
  cursor : Option Cursor
  /-- The lines not yet entered. -/
  ahead : List Line
  /-- The number of the line entered last, or of a token's line returned to. -/
  line : Nat
  /-- A token that was handed back. -/
  handedBack : Option Token
deriving DecidableEq, Repr

namespace Stream

/-- The first line with a word longer than a word may be, and that word's
length. -/
def overlongWord? (lines : List Line) : Option (Nat × Nat) :=
  lines.findSome? fun line =>
    ((Text.words line.text).map List.length).find? (Ceiling.wordLength < ·)
      |>.map fun length => (line.number, length)

/-- The lines of a source with their numbers. -/
def numberedLines (source : String) : List Line :=
  (Text.lines source.toList).zipIdx.map fun (text, index) => ⟨index + 1, text⟩

/-- The stream at the start of a source.  A source with an overlong word is
refused as a whole. -/
def ofSource (source : String) : Except Fault Stream :=
  let lines := numberedLines source
  match overlongWord? lines with
  | some (line, length) => .error (.tokenTooLong line length Ceiling.wordLength)
  | none => .ok ⟨none, lines, 0, none⟩

/-- Enters lines until one has a word.  The answer is the cursor on that word,
the number of the line entered last and the lines not entered. -/
def enterLines (line : Nat) : List Line → Option Cursor × Nat × List Line
  | [] => (none, line, [])
  | next :: below =>
    match (Cursor.atLine next below).word? with
    | some cursor => (some cursor, next.number, below)
    | none => enterLines next.number below

/-- Moves to the next word after the cursor, entering lines as needed. -/
def seek (s : Stream) : Option Cursor × Stream :=
  match s.cursor.bind Cursor.word? with
  | some cursor => (some cursor, { s with cursor := some cursor })
  | none =>
    let (cursor, line, ahead) := enterLines s.line s.ahead
    (cursor, { s with cursor, line, ahead })

/-- Reads the next token; one that was handed back comes first. -/
def next (s : Stream) : Option Token × Stream :=
  match s.handedBack with
  | some token => (some token, { s with handedBack := none })
  | none =>
    match s.seek with
    | (none, s) => (none, s)
    | (some cursor, s) =>
      let token := Token.ofCursor cursor
      (some token, { s with cursor := some (cursor.skip token.text.length) })

/-- The first word of the lines. -/
def firstWordOf (lines : List Line) : Option String :=
  lines.findSome? fun line =>
    let word := Text.firstWord (Text.skipBlanks line.text)
    if word.isEmpty then none else some (String.ofList word)

/-- The text of the next token, without reading it. -/
def peek (s : Stream) : Option String :=
  match s.handedBack with
  | some token => some token.text
  | none =>
    match s.cursor with
    | none => firstWordOf s.ahead
    | some cursor =>
      match cursor.word? with
      | some cursor => some (Token.ofCursor cursor).text
      | none => firstWordOf cursor.below

/-- Whether the next token begins with `c`. -/
def peekStartsWith (s : Stream) (c : Char) : Bool :=
  match s.peek with
  | some text => text.toList.head? = some c
  | none => false

/-- The next token as a 32-bit integer, without reading it. -/
def peekInt (s : Stream) : Option Int :=
  s.peek.bind fun text => Text.int32? text.toList

/-- Reads a token that has to be a 32-bit integer. -/
def nextInt (s : Stream) : Except Fault Int × Stream :=
  let (token, s) := s.next
  let text := (token.map Token.text).getD ""
  match Text.int32? text.toList with
  | some value => (.ok value, s)
  | none => (.error (.notAnInteger text s.line), s)

/-- Hands a token back; the stream keeps only one. -/
def handBack (s : Stream) (token : Token) : Except Fault Stream :=
  match s.handedBack with
  | some _ => .error (.alreadyHandedBack s.line)
  | none => .ok { s with handedBack := some token }

/-- Goes back to where the token that was handed back starts. -/
def rewind (s : Stream) : Stream :=
  match s.handedBack with
  | some token => { s with cursor := some token.start, line := token.line, handedBack := none }
  | none => s

/-- Reads the text between the next two quotes of the line that holds the next
word.  A line without two quotes leaves all its words unread. -/
def nextQuoted (s : Stream) : Option String × Stream :=
  match s.rewind.seek with
  | (none, s) => (none, s)
  | (some cursor, s) =>
    match cursor.quoted? with
    | none => (none, s)
    | some (body, cursor) => (some (String.ofList body), { s with cursor := some cursor })

/-- Gives up the rest of the line. -/
def dropLine (s : Stream) : Stream := { s with cursor := none }

/-- The number of characters of a text that are not blank. -/
def inked (text : List Char) : Nat := text.countP fun c => !Text.isBlank c

/-- The number of characters that are not blank and still to be read, those of a
token that was handed back among them. -/
def unread (s : Stream) : Nat :=
  (s.handedBack.map fun token => token.text.length).getD 0 +
    (s.cursor.map fun cursor => inked cursor.rest).getD 0 +
    s.ahead.foldl (fun total line => total + inked line.text) 0

/-- Reads at most `most` tokens. -/
def take : Nat → Stream → List Token × Stream
  | 0, s => ([], s)
  | most + 1, s =>
    match s.next with
    | (none, s) => ([], s)
    | (some token, s) =>
      let (tokens, s) := take most s
      (token :: tokens, s)

/-- Reads every token that is left: each has a character that is not blank, so
there are no more of them than of such characters. -/
def drain (s : Stream) : List Token × Stream := s.take (s.unread + 1)

end Stream
end Token
end DeviceSchema
