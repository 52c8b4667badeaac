import DeviceSchema.Statement.Collection

/-! # Sources

    source = (globalerror NAME "description" | condition | group)*

A source is read statement by statement into a session, with comments between the
statements.  `read` also logs that reading starts and how it ends: an event of
level error if and only if it fails.
-/
namespace DeviceSchema.Statement

/-- The statements of a source. -/
inductive Kind where
  | globalError
  | condition
  | group
deriving DecidableEq, Repr

/-- The keywords of the statements. -/
def keywords : List (String × Kind) :=
  [("globalerror", .globalError), ("condition", .condition), ("group", .group)]

variable [PatternCompiler]

namespace Reading

/-- Declares an error of the device. -/
def globalError : Reading Unit := do
  let name ← name
  let description ← description? .error
  extending (Session.onCatalogs (Catalogs.declare name description))

/-- Reads a statement after its keyword. -/
def statement (bound : Nat) : Kind → Reading Unit
  | .globalError => globalError
  | .condition => condition bound
  | .group => group bound

/-- Reads at most `bound` statements. -/
def statements : Nat → Reading Unit
  | 0 => return ()
  | bound + 1 => do
    let some token ← token? | return ()
    match Lead.ofToken keywords token with
    | .clause kind => do
      statement bound kind
      statements bound
    | .comment => do
      dropLine
      statements bound
    | .other => fail (.unknownKeyword token.text)

end Reading

/-- Reads all statements that are left. -/
def readAll (p : Progress) : EStateM.Result Failure Progress Unit :=
  Reading.statements (p.stream.unread + 1) p

/-- The event at the end of a reading that succeeded. -/
def completion (p : Progress) : Event :=
  (Event.ofSuccess Milestone.parsed.text "Syntax analysis completed").details
    [("groups", toString p.session.groupCount),
      ("ref_enums", toString p.session.refEnums.length),
      ("lines", toString p.stream.line)]

/-- The event at the end of a reading that failed. -/
def Failure.event (f : Failure) : Event :=
  (Event.ofError f.code.text f.message).details
    [("line", toString f.line), ("construct", (f.construct.map Construct.word).getD "none")]

/-- The outcome of a reading: whether it failed, and the progress that it made. -/
structure Outcome where
  result : Except Failure Unit
  progress : Progress

/-- Reads a source into a session. -/
def read (stream : Token.Stream) (session : Session) : Outcome :=
  match readAll ⟨stream, session, #[.ofDebug "Starting syntax analysis"]⟩ with
  | .ok _ p => ⟨.ok (), { p with events := p.events.push (completion p) }⟩
  | .error f p => ⟨.error f, { p with events := p.events.push f.event }⟩

end DeviceSchema.Statement
