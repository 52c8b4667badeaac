import DeviceSchema.Text.Numeral
import DeviceSchema.Text.Pattern.Modes
import DeviceSchema.Text.Pattern.Property

/-! # Escapes

What a backslash in a pattern makes of the characters after it: a character by its
number, a character that would otherwise mean something else, a set of characters,
or a test of the place.  Backward references are not part of the language.
-/
namespace DeviceSchema.Text.Pattern

/-- The smallest parts of a pattern. -/
inductive Atom where
  /-- A character; one that is given by two digits may stand for a byte. -/
  | char (c : Char) (isByte : Bool)
  | anyChar
  /-- A test of the place. -/
  | assertion
  /-- A set of characters, with the states that it needs. -/
  | set (states : Nat) (negated isProperty : Bool)
deriving DecidableEq, Repr

namespace Atom

/-- Whether the atom may stand in a pattern: one about bytes matches whole
characters only where it matches no byte above ASCII. -/
def isAllowed (modes : Modes) : Atom → Bool
  | char c isByte => modes.unicode || !isByte || c.toNat < 0x80
  | anyChar => modes.unicode
  | assertion => true
  | set _ negated isProperty => modes.unicode || (!negated && !isProperty)

/-- The states of an automaton for the atom. -/
def states : Atom → Nat
  | char c _ => c.utf8Size
  | anyChar => 12
  | assertion => 0
  | set states _ _ => states

end Atom

section Numbers

/-- Reads so many hexadecimal digits after a part whose value is `value`. -/
def readFixedHex (modes : Modes) : Nat → Nat → List Char → Option (Nat × List Char)
  | 0, value, text => some (value, text)
  | count + 1, value, c :: rest => do
    let digit ← digit? 16 c
    readFixedHex modes count (value * 16 + digit) (modes.skip rest)
  | _ + 1, _, [] => none

/-- The character with a number. -/
def charOf? (value : Nat) : Option Char :=
  if value.isValidChar then some (Char.ofNat value) else none

/-- Reads a character by its number, either of `count` hexadecimal digits or of any
number of them between braces. -/
def readHex (modes : Modes) (count : Nat) (text : List Char) : Option (Atom × List Char) :=
  match modes.skip text with
  | '{' :: rest => do
    let (digits, rest) := modes.collect (· ≠ '}') (modes.skip rest)
    let value ← numeral? 16 digits
    let c ← charOf? value
    if rest.isEmpty then none else return (.char c false, modes.skip (rest.drop 1))
  | text => do
    let (value, rest) ← readFixedHex modes count 0 text
    let c ← charOf? value
    return (.char c (count = 2), rest)

end Numbers

/-- Reads the name of a set of characters: a letter, or more between braces. -/
def readProperty (modes : Modes) (negated : Bool) (text : List Char) : Option (Atom × List Char) :=
  match modes.skip text with
  | [] => none
  | '{' :: rest =>
    match modes.collect (· ≠ '}') (modes.skip rest) with
    | (_, []) => none
    | (name, _ :: rest) =>
      if isSetReference name then some (.set 1450 negated true, rest) else none
  | c :: rest =>
    if c ≠ '\\' && isSetName [c] then some (.set 1450 negated true, modes.skip rest) else none

/-- The names of the halves and sides of a word boundary. -/
def boundaryNames : List String := ["start", "end", "start-half", "end-half"]

/-- Reads what may follow the test for a word boundary: the name of a side between
braces.  Braces that begin otherwise belong to a repetition. -/
def readBoundary (modes : Modes) (text : List Char) : Option (Atom × List Char) :=
  let isNamePart := fun (c : Char) => c.isAlpha || c = '-'
  match text with
  | '{' :: rest =>
    match modes.skip rest with
    | [] => none
    | c :: inner =>
      if !isNamePart c then some (.assertion, text)
      else match modes.collect isNamePart (c :: inner) with
        | (name, '}' :: rest) =>
          if boundaryNames.contains (String.ofList name) then some (.assertion, rest) else none
        | _ => none
  | _ => some (.assertion, text)

/-- Reads what follows a backslash. -/
def readEscape (modes : Modes) : List Char → Option (Atom × List Char)
  | [] => none
  | c :: rest =>
    if 0x80 ≤ c.toNat || c.isDigit then none
    else match c with
      | 'x' => readHex modes 2 rest
      | 'u' => readHex modes 4 rest
      | 'U' => readHex modes 8 rest
      | 'p' => readProperty modes false rest
      | 'P' => readProperty modes true rest
      | 'd' => some (.set 110 false false, rest)
      | 'D' => some (.set 110 true false, rest)
      | 's' => some (.set 20 false false, rest)
      | 'S' => some (.set 20 true false, rest)
      | 'w' => some (.set 1450 false false, rest)
      | 'W' => some (.set 1450 true false, rest)
      | 'b' => readBoundary modes rest
      | c =>
        if ['A', 'z', 'B', '<', '>'].contains c then some (.assertion, rest)
        else if c.isAlpha && !(['a', 'f', 't', 'n', 'r', 'v'].contains c) then none
        else some (.char c false, rest)

end DeviceSchema.Text.Pattern
