import DeviceSchema.Text.Pattern.Escape
import DeviceSchema.Text.Pattern.Shape

/-! # Sets between brackets

A set of characters is written between brackets: characters, ranges, sets by name
and further brackets side by side, perhaps several such unions joined by `&&`, `--`
or `~~`.  A hyphen right after the opening stands for itself, and so does a closing
bracket there.
-/
namespace DeviceSchema.Text.Pattern

/-- The sets of ASCII characters that have a name between brackets and colons. -/
def asciiSets : List String :=
  ["alnum", "alpha", "ascii", "blank", "cntrl", "digit", "graph", "lower", "print", "punct",
    "space", "upper", "word", "xdigit"]

/-- Reads the name of an ASCII set after an opening bracket.  The first part of the
answer tells whether the set is negated. -/
def readAsciiSet : List Char → Option (Bool × List Char)
  | ':' :: text =>
    let negated := text.head? = some '^'
    let text := if negated then text.drop 1 else text
    match text.dropWhile (· ≠ ':') with
    | ':' :: ']' :: rest =>
      if asciiSets.contains (String.ofList (text.takeWhile (· ≠ ':'))) then some (negated, rest)
      else none
    | _ => none
  | _ => none

/-- An open bracket. -/
structure Bracket where
  /-- Whether nothing but hyphens has followed the opening. -/
  fresh : Bool := true
  /-- The shape of what stands before the last operator. -/
  left : Option Shape := none
  /-- The union after it. -/
  items : Parts := {}
deriving DecidableEq, Repr

namespace Bracket

/-- The shape of the set so far. -/
def shape (b : Bracket) : Shape :=
  match b.left with
  | some left => (left.beside b.items.shape).deeper
  | none => b.items.shape

/-- Adds to the union. -/
def add (b : Bracket) (s : Shape) : Bracket := { b with fresh := false, items := b.items.add s }

/-- Adds a hyphen that stands at the opening. -/
def addHyphen (b : Bracket) : Bracket := { b with items := b.items.add {} }

/-- Begins a new union after an operator. -/
def operate (b : Bracket) : Bracket := { fresh := false, left := some b.shape }

/-- Whether a closing bracket stands for itself. -/
def isEmptyFresh (b : Bracket) : Bool := b.fresh && b.items.count = 0

end Bracket

/-- Reads the opening of a bracket after its character.  The complement of a set of
bytes would have bytes above ASCII. -/
def openBracket (modes : Modes) (text : List Char) : Option (Bracket × List Char) :=
  match modes.skip text with
  | '^' :: rest =>
    if modes.unicode then some ({ items := { before := ⟨0, 10⟩ } }, modes.skip rest) else none
  | text => some ({}, text)

section Items

/-- Reads a character or an escape. -/
def readItem (modes : Modes) : List Char → Option (Atom × List Char)
  | [] => none
  | '\\' :: rest => readEscape modes rest
  | c :: rest => some (.char c false, rest)

/-- The shape of an atom in a bracket, if it may stand there. -/
def itemShape (modes : Modes) : Atom → Option Shape
  | .char c _ =>
    if c.toNat < 0x80 then some {} else if modes.unicode then some ⟨0, 3⟩ else none
  | .set states negated isProperty =>
    if Atom.isAllowed modes (.set states negated isProperty) then some ⟨0, states⟩ else none
  | .anyChar | .assertion => none

/-- The shape of a range. -/
def rangeShape (modes : Modes) : Atom → Atom → Option Shape
  | .char low lowIsByte, .char high highIsByte =>
    if low ≤ high then do
      let a ← itemShape modes (.char low lowIsByte)
      let b ← itemShape modes (.char high highIsByte)
      return a.beside b
    else none
  | _, _ => none

/-- Reads an atom or a range.  A hyphen before a closing bracket or before another
hyphen makes no range. -/
def readRange (modes : Modes) (text : List Char) : Option (Shape × List Char) := do
  let (low, rest) ← readItem modes text
  let rest := modes.skip rest
  match rest with
  | '-' :: after =>
    let after := modes.skip after
    if after.head? = some ']' || after.head? = some '-' then
      return (← itemShape modes low, rest)
    else
      let (high, rest) ← readItem modes after
      return (← rangeShape modes low high, rest)
  | _ => return (← itemShape modes low, rest)

end Items

/-- Whether a text begins with an operator on sets. -/
def beginsWithOperator : List Char → Bool
  | '&' :: '&' :: _ | '-' :: '-' :: _ | '~' :: '~' :: _ => true
  | _ => false

/-- Reads up to the end of the outermost bracket.  The first argument bounds the
number of steps, each of which reads a character or more. -/
def readBrackets (modes : Modes) :
    Nat → List Bracket → Bracket → List Char → Option (Shape × List Char)
  | 0, _, _, _ => none
  | steps + 1, outer, b, text =>
    match modes.skip text with
    | [] => none
    | c :: rest =>
      if b.fresh && c = '-' then readBrackets modes steps outer b.addHyphen rest
      else if c = ']' && !b.isEmptyFresh then
        match outer with
        | [] => some (b.shape.deeper.larger 1, rest)
        | next :: outer => readBrackets modes steps outer (next.add b.shape.deeper) rest
      else if c = '[' then
        match readAsciiSet rest with
        | some (negated, rest) =>
          if negated && !modes.unicode then none
          else readBrackets modes steps outer (b.add {}) rest
        | none => do
          let (inner, rest) ← openBracket modes rest
          readBrackets modes steps (b :: outer) inner rest
      else if beginsWithOperator (c :: rest) then
        readBrackets modes steps outer b.operate (rest.drop 1)
      else if c = ']' then readBrackets modes steps outer (b.add {}) rest
      else do
        let (s, rest) ← readRange modes (c :: rest)
        readBrackets modes steps outer (b.add s) rest

/-- Reads a set after its opening bracket. -/
def readBracket (modes : Modes) (text : List Char) : Option (Shape × List Char) := do
  let (b, rest) ← openBracket modes text
  readBrackets modes (text.length + 1) [] b rest

end DeviceSchema.Text.Pattern
