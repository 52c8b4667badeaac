import DeviceSchema.Text.Numeral

/-! # Numbers and moments in TOML

Integers are decimal, or have a radix in front, and fit in 64 bits.  An underscore
may stand between two digits.  Fractions, dates and times are only recognized.
-/
namespace DeviceSchema.Toml

section Digits

/-- The digits at the front of a text, without the underscores between them, and the
rest. -/
def readDigits (isDigit : Char → Bool) : List Char → List Char × List Char
  | [] => ([], [])
  | c :: rest =>
    if isDigit c || (c = '_' && (rest.head?.map isDigit).getD false) then
      let (digits, rest) := readDigits isDigit rest
      (if c = '_' then digits else c :: digits, rest)
    else ([], c :: rest)

/-- Reads digits, the first of which is no underscore. -/
def readNumeral (isDigit : Char → Bool) (text : List Char) : Option (List Char × List Char) :=
  if (text.head?.map isDigit).getD false then some (readDigits isDigit text) else none

/-- Reads decimal digits without needless zeros in front. -/
def readDecimal (text : List Char) : Option (List Char × List Char) :=
  match text with
  | '0' :: rest => some (['0'], rest)
  | _ => readNumeral Char.isDigit text

end Digits

/-- A number as it is recognized. -/
inductive Number where
  | integer (value : Int)
  | fraction
deriving DecidableEq, Repr

/-- An integer of 64 bits. -/
def integer64? (value : Int) : Option Number :=
  if Text.fitsSigned 64 value then some (.integer value) else none

section Fractions

/-- The sign of a number, and the rest: whether it is negative. -/
def readSign : List Char → Bool × List Char
  | '-' :: rest => (true, rest)
  | '+' :: rest => (false, rest)
  | text => (false, text)

/-- Reads an exponent, if one follows. -/
def readExponent (text : List Char) : Option (Int × List Char) :=
  match text with
  | c :: rest =>
    if c = 'e' || c = 'E' then do
      let (negative, rest) := readSign rest
      let (digits, rest) ← readNumeral Char.isDigit rest
      let value : Int := (Text.numeral? 10 digits).getD 0
      return (if negative then -value else value, rest)
    else some (0, text)
  | [] => some (0, [])

/-- Whether `digits` times the power of ten is less than the least number that is
rounded to infinity: the numbers of 53 bits end at the 1024th power of two. -/
def isFinite (digits : Nat) (exponent : Int) : Bool :=
  let beyond := Nat.pow 2 1024 - Nat.pow 2 970
  let order := (Nat.repr digits).length + exponent
  digits = 0 || order < 300 ||
    (order < 320 &&
      if 0 ≤ exponent then digits * Nat.pow 10 exponent.toNat < beyond
      else digits < beyond * Nat.pow 10 (-exponent).toNat)

/-- Reads what makes a fraction of the digits before it.  A positive one has to be
finite. -/
def readFraction (negative : Bool) (whole text : List Char) : Option (Number × List Char) := do
  let (places, rest) ← match text with
    | '.' :: rest => readNumeral Char.isDigit rest
    | _ => some ([], text)
  let (exponent, rest) ← readExponent rest
  let digits := (Text.numeral? 10 (whole ++ places)).getD 0
  if negative || isFinite digits (exponent - places.length) then return (.fraction, rest) else none

end Fractions

/-- Reads a number after its sign. -/
def readUnsigned (negative : Bool) (text : List Char) : Option (Number × List Char) :=
  match text with
  | 'i' :: 'n' :: 'f' :: rest => some (.fraction, rest)
  | 'n' :: 'a' :: 'n' :: rest => some (.fraction, rest)
  | _ => do
    let (digits, rest) ← readDecimal text
    if ['.', 'e', 'E'].contains (rest.head?.getD ' ') then readFraction negative digits rest
    else
      let value : Int := (Text.numeral? 10 digits).getD 0
      return (← integer64? (if negative then -value else value), rest)

/-- Reads an integer of a radix. -/
def readRadix (radix : Nat) (text : List Char) : Option (Number × List Char) := do
  let (digits, rest) ← readNumeral (fun c => (Text.digit? radix c).isSome) text
  return (← integer64? ((Text.numeral? radix digits).getD 0), rest)

/-- Reads a number. -/
def readNumber (text : List Char) : Option (Number × List Char) :=
  match text with
  | '0' :: 'x' :: rest => readRadix 16 rest
  | '0' :: 'o' :: rest => readRadix 8 rest
  | '0' :: 'b' :: rest => readRadix 2 rest
  | _ =>
    let (negative, rest) := readSign text
    readUnsigned negative rest

section Moments

/-- Reads a number of so many digits within bounds. -/
def readPart (width low high : Nat) (text : List Char) : Option (Nat × List Char) := do
  let digits := text.take width
  if digits.length < width || !digits.all Char.isDigit then none
  else
    let value ← Text.numeral? 10 digits
    if low ≤ value && value ≤ high then return (value, text.drop width) else none

/-- Drops a character that has to come. -/
def expect (c : Char) : List Char → Option (List Char)
  | d :: rest => if d = c then some rest else none
  | [] => none

/-- The number of days of a month. -/
def daysOf (year month : Nat) : Nat :=
  let isLeap := year % 4 = 0 ∧ (year % 100 ≠ 0 ∨ year % 400 = 0)
  if month = 2 then if isLeap then 29 else 28
  else if [4, 6, 9, 11].contains month then 30
  else 31

/-- Reads a date. -/
def readDate (text : List Char) : Option (List Char) := do
  let (year, rest) ← readPart 4 0 9999 text
  let (month, rest) ← readPart 2 1 12 (← expect '-' rest)
  let (_, rest) ← readPart 2 1 (daysOf year month) (← expect '-' rest)
  return rest

/-- Reads a time. -/
def readTime (text : List Char) : Option (List Char) := do
  let (_, rest) ← readPart 2 0 23 text
  let (_, rest) ← readPart 2 0 59 (← expect ':' rest)
  let (_, rest) ← readPart 2 0 60 (← expect ':' rest)
  match rest with
  | '.' :: places =>
    if (places.head?.map Char.isDigit).getD false then return places.dropWhile Char.isDigit
    else none
  | _ => return rest

/-- Reads the distance to universal time, if it follows. -/
def readOffset (text : List Char) : Option (List Char) :=
  match text with
  | c :: rest =>
    if c = 'Z' || c = 'z' then some rest
    else if c = '+' || c = '-' then do
      let (_, rest) ← readPart 2 0 23 rest
      let (_, rest) ← readPart 2 0 59 (← expect ':' rest)
      return rest
    else some text
  | [] => some []

/-- Reads a date, which may have a time, or a time. -/
def readMoment (text : List Char) : Option (List Char) :=
  match readDate text with
  | none => readTime text
  | some rest =>
    match rest with
    | c :: after =>
      if ['T', 't', ' '].contains c then
        match readTime after with
        | some rest => readOffset rest
        | none => some rest
      else some rest
    | [] => some []

end Moments
end DeviceSchema.Toml
