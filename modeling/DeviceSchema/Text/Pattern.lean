import DeviceSchema.Text.Letters
import DeviceSchema.Text.Pattern.Bracket
import DeviceSchema.Text.PatternCompiler

/-! # Well-formed patterns

A pattern is a regular expression in a language without backward references and
without tests of what stands around a match:

    pattern    = sequence ('|' sequence)*
    sequence   = (atom repetition* | '(?' flags ')')*
    atom       = character | '.' | '^' | '$' | escape | bracket | group
    group      = '(' pattern ')' | '(?' flags ':' pattern ')' | '(?P<' name '>' pattern ')'
    repetition = ('?' | '*' | '+' | '{' count '}') '?'?

It is well formed when it can be read so, names no group twice and is not too
large.  A pattern is read from the front with the open groups on a stack.
-/
namespace DeviceSchema.Text.Pattern

/-- What has been read of a group, or of the whole pattern. -/
structure Level where
  /-- The modes outside of the group. -/
  outside : Modes := {}
  /-- The alternatives that are complete, if there are any. -/
  choices : Option Shape := none
  /-- The alternative under way. -/
  parts : Parts := {}
deriving DecidableEq, Repr

namespace Level

/-- The shape of what has been read. -/
def shape (l : Level) : Shape :=
  match l.choices with
  | some choices => (choices.beside l.parts.shape).deeper.larger 1
  | none => l.parts.shape

/-- Begins another alternative. -/
def nextChoice (l : Level) : Level :=
  let before := l.choices.getD {}
  { l with choices := some (before.beside l.parts.shape), parts := {} }

/-- Adds a part to the alternative under way. -/
def add (l : Level) (s : Shape) : Level := { l with parts := l.parts.add s }

end Level

/-- What has been read of a pattern. -/
structure Reader where
  modes : Modes := {}
  /-- The names of groups. -/
  names : List (List Char) := []
  /-- The innermost open group. -/
  level : Level := {}
  /-- The groups around it. -/
  outer : List Level := []

namespace Reader

section Groups

/-- Whether a text is the name of a group. -/
def isGroupName : List Char → Bool
  | [] => false
  | c :: rest =>
    (c = '_' || isLetter c) &&
      rest.all fun c => ['_', '.', '[', ']'].contains c || isLetterOrNumeral c

/-- Enters a group that is read in other modes. -/
def enter (r : Reader) (modes : Modes) : Reader :=
  { r with modes, level := { outside := r.modes }, outer := r.level :: r.outer }

/-- Reads the name of a group and enters it. -/
def enterNamed (r : Reader) (text : List Char) : Option (Reader × List Char) :=
  match text.dropWhile (· ≠ '>') with
  | [] => none
  | _ :: rest =>
    let name := text.takeWhile (· ≠ '>')
    if isGroupName name && !r.names.contains name then
      some ({ r.enter r.modes with names := name :: r.names }, rest)
    else none

/-- Reads flags, for the rest of the group or for a group of their own. -/
def enterFlags (r : Reader) (text : List Char) : Option (Reader × List Char) := do
  let (flags, c, rest) ← readFlags {} text
  if c = ':' then return (r.enter (r.modes.under flags), rest)
  else if flags.letters.isEmpty then none
  else
    let level := { r.level with parts := r.level.parts.addMark }
    return ({ r with modes := r.modes.under flags, level }, rest)

/-- Reads the opening of a group after its parenthesis.  Tests of what stands around
a match are not part of the language. -/
def openGroup (r : Reader) (text : List Char) : Option (Reader × List Char) :=
  match r.modes.skip text with
  | '?' :: '=' :: _ | '?' :: '!' :: _ | '?' :: '<' :: '=' :: _ | '?' :: '<' :: '!' :: _ => none
  | '?' :: 'P' :: '<' :: rest => r.enterNamed rest
  | '?' :: '<' :: rest => r.enterNamed rest
  | '?' :: rest => r.enterFlags rest
  | rest => some (r.enter r.modes, rest)

/-- Leaves the innermost group. -/
def closeGroup (r : Reader) : Option Reader :=
  match r.outer with
  | [] => none
  | next :: outer =>
    some { r with modes := r.level.outside, level := next.add r.level.shape.deeper, outer }

end Groups

section Repetitions

/-- Reads a decimal number of 32 bits with blanks around it. -/
def readCount (modes : Modes) (text : List Char) : Option (Nat × List Char) :=
  let (digits, rest) := modes.collect Char.isDigit (skipBlanks text)
  ((numeral? 10 digits).filter (· < Nat.pow 2 32)).map fun count => (count, skipBlanks rest)

/-- Reads a counted repetition after its opening brace. -/
def readRepetition (modes : Modes) (text : List Char) : Option (Repetition × List Char) := do
  let (least, rest) ← readCount modes (modes.skip text)
  match rest with
  | '}' :: rest => return (⟨least, some least⟩, rest)
  | ',' :: rest =>
    match modes.skip rest with
    | '}' :: rest => return (⟨least, none⟩, rest)
    | rest =>
      let (most, rest) ← readCount modes rest
      match rest with
      | '}' :: rest => return (⟨least, some most⟩, rest)
      | _ => none
  | _ => none

/-- Drops the question mark that makes a repetition take as little as it can. -/
def skipLazy : List Char → List Char
  | '?' :: rest => rest
  | rest => rest

/-- Repeats the last part. -/
def repeatLast (r : Reader) (repetition : Repetition) (rest : List Char) :
    Option (Reader × List Char) := do
  let parts ← r.level.parts.repeatLast repetition
  return ({ r with level := { r.level with parts } }, skipLazy rest)

end Repetitions

/-- Adds an atom. -/
def add (r : Reader) (a : Atom) (rest : List Char) : Option (Reader × List Char) :=
  if a.isAllowed r.modes then some ({ r with level := r.level.add ⟨0, a.states⟩ }, rest) else none

/-- Reads what begins with a character. -/
def step (r : Reader) (c : Char) (rest : List Char) : Option (Reader × List Char) :=
  match c with
  | '(' => r.openGroup rest
  | ')' => r.closeGroup.map fun r => (r, rest)
  | '|' => some ({ r with level := r.level.nextChoice }, rest)
  | '[' => (readBracket r.modes rest).map fun (s, rest) => ({ r with level := r.level.add s }, rest)
  | '?' => r.repeatLast ⟨0, some 1⟩ rest
  | '*' => r.repeatLast ⟨0, none⟩ rest
  | '+' => r.repeatLast ⟨1, none⟩ rest
  | '{' => do
    let (repetition, rest) ← readRepetition r.modes rest
    r.repeatLast repetition (r.modes.skip rest)
  | '\\' => do
    let (a, rest) ← readEscape r.modes rest
    r.add a rest
  | '.' => r.add .anyChar rest
  | '^' | '$' => r.add .assertion rest
  | c => r.add (.char c false) rest

/-- Reads to the end.  The first argument bounds the number of steps, each of which
reads a character or more. -/
def run : Nat → Reader → List Char → Option Reader
  | 0, _, _ => none
  | steps + 1, r, text =>
    match r.modes.skip text with
    | [] => some r
    | c :: rest => (r.step c rest).bind fun (r, rest) => run steps r rest

end Reader

/-- Whether a text is a pattern. -/
def isWellFormed (pattern : String) : Bool :=
  let text := pattern.toList
  match Reader.run (text.length + 1) {} text with
  | some r => r.outer.isEmpty && r.level.shape.isUsable
  | none => false

/-- The compiler of patterns that takes what is well formed. -/
@[reducible] def compiler : PatternCompiler where
  compile pattern :=
    if isWellFormed pattern then .ok () else .error ("not a pattern: " ++ pattern)

end DeviceSchema.Text.Pattern
