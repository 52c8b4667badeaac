import DeviceSchema.Journal.Event
import DeviceSchema.Statement.Failure
import DeviceSchema.Token.Expression
import DeviceSchema.Tree.Session

/-! # Reading statements

Statements are read from a token stream into a session.  A `Reading` takes the
**progress** made so far, which is what is left of the stream, the session and
the events to be logged, and ends with a value or a failure.  In either case the
progress that it made stands, so what a failed description leaves in the session
can be seen.

This module has the steps that every statement is made of: tokens, names, texts,
descriptions and counts.
-/
namespace DeviceSchema.Statement

/-- What has been read and what is left. -/
structure Progress where
  stream : Token.Stream
  session : Session
  /-- The events to be logged, oldest first. -/
  events : Array Event := #[]

/-- A step of reading. -/
abbrev Reading := EStateM Failure Progress

namespace Reading

section Steps

/-- The line that the stream has reached. -/
def line : Reading Nat := fun p => .ok p.stream.line p

/-- The session as it is. -/
def session : Reading Session := fun p => .ok p.session p

/-- The limits of the run. -/
def limits : Reading Limits := fun p => .ok p.session.limits p

/-- A step on the stream. -/
def onStream {α : Type} (step : Token.Stream → α × Token.Stream) : Reading α := fun p =>
  let (value, stream) := step p.stream
  .ok value { p with stream }

/-- What can be seen of the stream without reading. -/
def look {α : Type} (view : Token.Stream → α) : Reading α := fun p => .ok (view p.stream) p

/-- Fails on a given line. -/
def failAt {α : Type} (line : Nat) (cause : Cause) : Reading α := fun p =>
  .error { cause, line } p

/-- Fails on the line that the stream has reached. -/
def fail {α : Type} (cause : Cause) : Reading α := fun p =>
  .error { cause, line := p.stream.line } p

/-- Fails in a construct that was opened on `line`. -/
def failWithin {α : Type} (construct : Construct) (line : Nat) (cause : Cause) : Reading α :=
  fun p => .error { cause, line, construct := some construct } p

/-- Fails in a construct whose name is known. -/
def failIn {α : Type} (construct : Construct) (name : String) (line : Nat) (cause : Cause) :
    Reading α :=
  fun p => .error { cause, line, construct := some construct, name := some name } p

/-- The value of a change to the tree, or its defect as a failure. -/
def taking {α : Type} : Except Defect α → Reading α
  | .ok value => pure value
  | .error defect => fail (.defect defect)

/-- The value behind a change, which is given up if it has met a defect. -/
abbrev changing {σ : Type} (result : EStateM.Result Defect σ Unit) : Reading σ :=
  taking (changed result)

/-- The value of a check that closes a construct. -/
def closing {α : Type} (construct : Construct) (name : String) (line : Nat) :
    Except Defect α → Reading α
  | .ok value => pure value
  | .error defect => failIn construct name line (.defect defect)

/-- Changes the session. -/
def onSession (change : Session → Session) : Reading Unit := fun p =>
  .ok () { p with session := change p.session }

/-- Changes the session by a step that may have a defect, and then stands as the step
left it. -/
def extending (change : Changing Session Unit) : Reading Unit := fun p =>
  match change p.session with
  | .ok _ session => .ok () { p with session }
  | .error defect session =>
    .error { cause := .defect defect, line := p.stream.line } { p with session }

/-- Changes the statistics. -/
def note (change : Statistics → Statistics) : Reading Unit := onSession (·.note change)

/-- Logs an event. -/
def tell (event : Event) : Reading Unit := fun p =>
  .ok () { p with events := p.events.push event }

end Steps

section Tokens

/-- The next token, if there is one. -/
def token? : Reading (Option Token) := onStream Token.Stream.next

/-- The text of the next token; empty at the end of the source. -/
def tokenText : Reading String := do
  return ((← token?).map Token.text).getD ""

/-- Hands a token back. -/
def handBack (token : Token) : Reading Unit := fun p =>
  match p.stream.handBack token with
  | .ok stream => .ok () { p with stream }
  | .error fault => .error { cause := .token fault, line := p.stream.line } p

/-- Gives up the rest of a line after a comment has begun. -/
def dropLine : Reading Unit := onStream fun s => ((), s.dropLine)

/-- Whether the next token begins with `c`. -/
def seesStart (c : Char) : Reading Bool := look (·.peekStartsWith c)

/-- The value of a parenthesized expression. -/
def expression : Reading Int := do
  match ← onStream Token.Stream.nextExpression with
  | .ok value => return value
  | .error failure => fail (.arithmetic failure)

end Tokens

section Names

/-- A letter, an underscore or a colon. -/
def isNameStart (c : Char) : Bool := c = ':' || c = '_' || c.isAlpha

/-- The characters that a name may go on with. -/
def isNamePart (c : Char) : Bool := isNameStart c || c.isDigit || c = '.' || c = '-'

/-- Whether a text is a name; only names of members may begin with a digit. -/
def isName (ofMember : Bool) : List Char → Bool
  | [] => false
  | c :: rest => (isNameStart c || (ofMember && c.isDigit)) && rest.all isNamePart

/-- The name of a group, list, element, condition or error. -/
def name : Reading String := do
  let before ← line
  let some token ← token? | failAt before .missingName
  let most := (← limits).nameLength
  if most < token.text.length then fail (.nameTooLong most)
  else if !isName false token.text.toList then fail (.malformedName token.text)
  else return token.text

/-- The name of a member of an `enum`. -/
def memberName : Reading String := do
  let before ← line
  let some token ← token? | failAt before .missingName
  let most := (← limits).nameLength
  if most < token.text.length then fail (.memberNameTooLong most)
  else if !isName true token.text.toList then fail (.malformedMemberName token.text)
  else return token.text

end Names

section Texts

/-- A quoted text, or a token where none begins. -/
def text? : Reading (Option String) := do
  if ← seesStart '"' then onStream Token.Stream.nextQuoted
  else return (← token?).map Token.text

/-- A text that must not be missing. -/
def text (missing : Cause) : Reading String := do
  match ← text? with
  | some text => return text
  | none => fail missing

/-- Whether all characters are among the first 256. -/
def isLatin1 (text : List Char) : Bool := text.all fun c => c.toNat ≤ 0xFF

/-- A description in quotes, if one begins; an empty one is none. -/
def description? (wording : Wording) : Reading (Option String) := do
  if !(← seesStart '"') then return none
  match ← onStream Token.Stream.nextQuoted with
  | none => fail (.unclosedDescription wording)
  | some text =>
    if !isLatin1 text.toList then fail (.notLatin1 wording)
    else return if text.isEmpty then none else some text

/-- A text with its colons doubled: a single colon parts a label from a help
text. -/
def doubleColons (text : String) : String :=
  String.ofList (text.toList.flatMap fun c => if c = ':' then [':', ':'] else [c])

/-- A label, which is a description of bounded length. -/
def label? : Reading (Option String) := do
  match ← description? .label with
  | none => return none
  | some text =>
    if Ceiling.labelLength < text.length then fail (.labelTooLong Ceiling.labelLength)
    else return some (doubleColons text)

/-- A help text. -/
def help? : Reading (Option String) := description? .help

end Texts

section Leads

/-- What a token at the start of a clause is. -/
inductive Lead (κ : Type) where
  | clause (kind : κ)
  | comment
  | other

/-- Clauses begin with keywords in any ASCII case, comments with a hash. -/
def Lead.ofToken {κ : Type} (keywords : List (String × κ)) (token : Token) : Lead κ :=
  match keywords.lookup token.text.toLower with
  | some kind => .clause kind
  | none => if token.text.toList.head? = some '#' then .comment else .other

end Leads

section Values

/-- The number of instances, if one follows. -/
def instances? : Reading (Option Int) := do
  if (← look Token.Stream.peekInt).isSome then
    match ← onStream Token.Stream.nextInt with
    | .ok count => return some count
    | .error fault => fail (.token fault)
  else if ← seesStart '(' then return some (← expression)
  else return none

/-- The value of an access clause. -/
def access : Reading Access := do
  let before ← line
  let some token ← token? | failAt before (.missing .access)
  taking (Access.ofText token.text)

/-- The text of a bound; an expression stands for its value. -/
def bound : Reading String := do
  if ← seesStart '(' then return toString (← expression)
  else match ← token? with
    | some token => return token.text
    | none => fail (.missing .bound)

/-- The value of the case clause of an element. -/
def caseRule : Reading CaseRule := do
  match CaseRule.ofWord? (← text (.missing .caseValue)) with
  | some caseRule => return caseRule
  | none => fail .unknownCaseValue

/-- The value of a capacity clause. -/
def capacity (construct : Construct) (opened : Nat) : Reading Capacity := do
  let text ← tokenText
  match Capacity.ofWord? text with
  | some capacity => return capacity
  | none => failWithin construct opened (.unknownCapacity construct text)

/-- The value of a keys clause.  Only the empty set of keys can be written. -/
def keys (construct : Construct) (opened : Nat) : Reading (List String) := do
  if (← tokenText) = "\x7b\x7d" then return []
  else failWithin construct opened (.keysNotSupported construct)

/-- A path of a reference: an absolute path of names and stars. -/
def referencePath : Reading String := do
  let path ← text .missingName
  match path.toList with
  | '/' :: relative =>
    if path.toList.getLast? = some '/' then fail (.referenceEndsWithSlash path)
    else match (relative.splitOn '/').find? fun step => step ≠ ['*'] && !isName true step with
      | some step => fail (.malformedReferenceStep (String.ofList step))
      | none => return path
  | _ => fail (.referenceNotRooted path)

end Values

/-- Attaches a condition of the same table, by name, to the node at `here`. -/
def attachment (info : Info) (here : Path) : Reading Info := do
  let name ← name
  let table := (← session).table here.table
  let condition ← taking (table.condition name)
  changing (info.attach condition here)

end Reading
end DeviceSchema.Statement
