import DeviceSchema.Text.Numeral

/-! # The small parts of TOML

Blanks, line ends, remarks, quoted texts and keys.  A reader takes what it reads
from the front of a text and gives it together with the rest.
-/
namespace DeviceSchema.Toml

section Blanks

/-- Spaces and tabs. -/
def isBlank (c : Char) : Bool := c = ' ' || c = '\t'

def skipBlanks (text : List Char) : List Char := text.dropWhile isBlank

/-- The rest after a line end. -/
def lineEnd? : List Char → Option (List Char)
  | '\n' :: rest => some rest
  | '\r' :: '\n' :: rest => some rest
  | _ => none

/-- Every character but controls; a tab is no control here. -/
def isPlain (c : Char) : Bool := c = '\t' || (0x20 ≤ c.toNat && c.toNat ≠ 0x7F)

/-- Drops blanks and a remark, and the line end after them.  The end of the text
ends a line too. -/
def endLine (text : List Char) : Option (List Char) :=
  let text := skipBlanks text
  let text := if text.head? = some '#' then text.dropWhile isPlain else text
  if text.isEmpty then some [] else lineEnd? text

/-- Drops blanks, line ends and remarks.  The first argument tells whether a remark
is under way. -/
def skipLines : Bool → List Char → List Char
  | _, '\n' :: rest => skipLines false rest
  | _, '\r' :: '\n' :: rest => skipLines false rest
  | true, c :: rest => if isPlain c then skipLines true rest else c :: rest
  | false, c :: rest =>
    if isBlank c then skipLines false rest
    else if c = '#' then skipLines true rest
    else c :: rest
  | _, [] => []

end Blanks

section Texts

/-- The character that a backslash and a letter stand for. -/
def escaped? (c : Char) : Option Char :=
  [('b', Char.ofNat 0x8), ('t', '\t'), ('n', '\n'), ('f', Char.ofNat 0xC), ('r', '\r'), ('"', '"'),
    ('\\', '\\')].lookup c

/-- The character whose number has these hexadecimal digits. -/
def numbered? (digits : List Char) : Option Char :=
  (Text.numeral? 16 digits).bind fun n => if n.isValidChar then some (Char.ofNat n) else none

/-- A backslash is followed only by blanks on its line. -/
def endsItsLine (text : List Char) : Bool := (lineEnd? (skipBlanks text)).isSome

/-- Reads a text up to its closing quote; `done` is what has been read, backwards. -/
def readQuoted (done : List Char) : List Char → Option (String × List Char)
  | '"' :: rest => some (String.ofList done.reverse, rest)
  | '\\' :: 'u' :: a :: b :: c :: d :: rest => do
    readQuoted ((← numbered? [a, b, c, d]) :: done) rest
  | '\\' :: 'U' :: a :: b :: c :: d :: e :: f :: g :: h :: rest => do
    readQuoted ((← numbered? [a, b, c, d, e, f, g, h]) :: done) rest
  | '\\' :: c :: rest => do readQuoted ((← escaped? c) :: done) rest
  | c :: rest => if isPlain c then readQuoted (c :: done) rest else none
  | [] => none

/-- What is left of the quotes that end a text of several lines: up to two of them
belong to the text. -/
def closeQuotes (quote : Char) (done : List Char) (text : List Char) : String × List Char :=
  let extra := (text.takeWhile (· = quote)).length.min 2
  (String.ofList (List.replicate extra quote ++ done).reverse, text.drop extra)

/-- Reads a text of several lines up to its closing quotes.  The first argument tells
whether blanks and line ends are dropped, as they are after a backslash that ends
its line. -/
def readQuotedLines (dropping : Bool) (done : List Char) : List Char → Option (String × List Char)
  | '"' :: '"' :: '"' :: rest => some (closeQuotes '"' done rest)
  | '\r' :: '\n' :: rest =>
    if dropping then readQuotedLines true done rest
    else readQuotedLines false ('\n' :: done) rest
  | '\n' :: rest =>
    if dropping then readQuotedLines true done rest
    else readQuotedLines false ('\n' :: done) rest
  | '\\' :: 'u' :: a :: b :: c :: d :: rest => do
    readQuotedLines false ((← numbered? [a, b, c, d]) :: done) rest
  | '\\' :: 'U' :: a :: b :: c :: d :: e :: f :: g :: h :: rest => do
    readQuotedLines false ((← numbered? [a, b, c, d, e, f, g, h]) :: done) rest
  | '\\' :: c :: rest =>
    if endsItsLine (c :: rest) then
      match c with
      | '\r' => readQuotedLines true done rest
      | _ => readQuotedLines true done rest
    else do readQuotedLines false ((← escaped? c) :: done) rest
  | c :: rest =>
    if dropping && isBlank c then readQuotedLines true done rest
    else if isPlain c then readQuotedLines false (c :: done) rest
    else none
  | [] => none

/-- The quote of texts without escapes. -/
def plainQuote : Char := '\x27'

/-- Reads a text without escapes up to its closing quote. -/
def readPlain (text : List Char) : Option (String × List Char) :=
  let isInside := fun (c : Char) => isPlain c && c ≠ plainQuote
  match text.dropWhile isInside with
  | c :: rest =>
    if c = plainQuote then some (String.ofList (text.takeWhile isInside), rest) else none
  | [] => none

/-- Reads a text of several lines without escapes up to its closing quotes. -/
def readPlainLines (done : List Char) : List Char → Option (String × List Char)
  | '\x27' :: '\x27' :: '\x27' :: rest => some (closeQuotes plainQuote done rest)
  | '\r' :: '\n' :: rest => readPlainLines ('\n' :: done) rest
  | '\n' :: rest => readPlainLines ('\n' :: done) rest
  | c :: rest => if isPlain c then readPlainLines (c :: done) rest else none
  | [] => none

/-- Drops a line end right after the opening quotes. -/
def skipFirstEnd (text : List Char) : List Char := (lineEnd? text).getD text

/-- Reads a text in any of the four kinds of quotes. -/
def readText : List Char → Option (String × List Char)
  | '"' :: '"' :: '"' :: rest => readQuotedLines false [] (skipFirstEnd rest)
  | '"' :: rest => readQuoted [] rest
  | '\x27' :: '\x27' :: '\x27' :: rest => readPlainLines [] (skipFirstEnd rest)
  | '\x27' :: rest => readPlain rest
  | _ => none

end Texts

section Keys

/-- The characters of a name without quotes. -/
def isNamePart (c : Char) : Bool := c.isAlphanum || c = '_' || c = '-'

/-- Reads a name, which may be a text of one line in quotes. -/
def readName : List Char → Option (String × List Char)
  | '"' :: rest => readQuoted [] rest
  | '\x27' :: rest => readPlain rest
  | text =>
    let name := text.takeWhile isNamePart
    if name.isEmpty then none else some (String.ofList name, text.dropWhile isNamePart)

/-- Reads a key of at most so many names with points between them. -/
def readKey : Nat → List Char → Option (List String × List Char)
  | 0, _ => none
  | names + 1, text => do
    let (name, rest) ← readName (skipBlanks text)
    match skipBlanks rest with
    | '.' :: rest => do
      let (others, rest) ← readKey names rest
      return (name :: others, rest)
    | rest => return ([name], rest)

end Keys
end DeviceSchema.Toml
