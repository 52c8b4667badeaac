import DeviceSchema.CrossReference.Check
import DeviceSchema.Statement.Source
import DeviceSchema.Storage.SourceFile
import DeviceSchema.Tree.Document

/-! # Descriptions

A **description** of a device comes from a source: its tokens are read, its
statements fill a session, and the session is checked as a whole.  Whatever goes
wrong on the way is a **rejection**.  The events on the way are logged, as a rule
with the file that they are about.
-/
namespace DeviceSchema

/-- Why a source is no description. -/
inductive Rejection where
  | file (fault : Storage.Fault)
  | tokens (fault : Token.Fault)
  | statement (failure : Statement.Failure)
  /-- A fault that shows when all `line` lines have been read. -/
  | crossReference (fault : CrossReference.Fault) (line : Nat)
  | noGroups (name : String)
deriving DecidableEq, Repr

namespace Rejection

/-- The line to look at, where there is one. -/
def line? : Rejection → Option Nat
  | file _ | noGroups _ => none
  | tokens fault => some fault.line
  | statement failure => some failure.line
  | crossReference _ line => some line

/-- What is wrong. -/
def message : Rejection → String
  | file fault => fault.message
  | tokens fault => fault.message
  | statement failure => failure.message
  | crossReference fault _ => fault.message
  | noGroups name => "No groups specified in file: " ++ name

/-- The stage at which a source was rejected, as the head of a message. -/
def stage : Rejection → String
  | file _ => "File processing failed: "
  | tokens _ => "Lexical analysis failed: "
  | statement _ => "Syntax analysis failed: "
  | crossReference _ _ => "Cross-reference validation failed: "
  | noGroups _ => ""

/-- What is wrong and at which stage. -/
def staged (r : Rejection) : String := r.stage ++ r.message

/-- The message for a user who knows the file as `name`. -/
def diagnostic (r : Rejection) (name : String) : String :=
  match r.line? with
  | some line => "Error found in " ++ name ++ ", line " ++ toString line ++ ": " ++ r.message
  | none => "Error found in " ++ name ++ ": " ++ r.message

def code : Rejection → ErrorCode
  | file fault => fault.code
  | tokens fault => Statement.faultCode fault
  | statement failure => failure.code
  | crossReference fault _ => fault.code
  | noGroups _ => .noGroups

end Rejection

/-- A session that has been checked, and where it came from. -/
structure Description where
  session : Session
  name : String
  /-- What is known of the file, if the source came from one. -/
  metadata : Option Storage.Metadata
  counts : CrossReference.Counts
  lineCount : Nat
deriving Repr

namespace Description
variable [PatternCompiler]

/-- The outcome of reading a source, with the events to be logged. -/
structure Outcome where
  result : Except Rejection Description
  events : Array Event

/-- A step on the way to a description. -/
abbrev Making := EStateM Rejection (Array Event)

namespace Making

/-- Logs an event. -/
def tell (event : Event) : Making Unit := fun events => .ok () (events.push event)

/-- Reads the statements of a stream into a session. -/
def statements (stream : Token.Stream) (limits : Limits) : Making Statement.Progress :=
  fun events =>
    let outcome := Statement.read stream (.ofLimits limits)
    let events := events ++ outcome.progress.events
    match outcome.result with
    | .ok _ => .ok outcome.progress events
    | .error failure => .error (.statement failure) events

/-- A description has a group. -/
def checkGroups (session : Session) (name : String) : Making Unit := fun events =>
  if session.groupCount = 0 then
    let rejection := Rejection.noGroups name
    .error rejection (events.push (.ofError rejection.code.text rejection.message))
  else .ok () events

/-- Checks a session as a whole after `line` lines. -/
def crossReferences (session : Session) (line : Nat) :
    Making (Session × CrossReference.Counts) := fun events =>
  let outcome := CrossReference.check ⟨session, events⟩
  match outcome.result with
  | .ok counts => .ok (outcome.progress.session, counts) outcome.progress.events
  | .error fault => .error (.crossReference fault line) outcome.progress.events

/-- The event about a description that is complete. -/
def completion (d : Description) : Event :=
  { (Event.ofSuccess Milestone.processed.text "RCI configuration processed").details
    [("file", d.name), ("groups", toString d.session.groupCount),
      ("lines", toString d.lineCount)] with timed := true }

/-- Makes a description from a stream. -/
def ofStream (name : String) (stream : Token.Stream) (limits : Limits)
    (metadata : Option Storage.Metadata) : Making Description := do
  let progress ← statements stream limits
  checkGroups progress.session name
  let lineCount := progress.stream.line
  let (session, counts) ← crossReferences progress.session lineCount
  let d := { session, name, metadata, counts, lineCount }
  tell (completion d)
  return d

/-- Makes a description from a text. -/
def ofSource (name source : String) (limits : Limits) : Making Description := do
  tell ((Event.ofInfo "Processing RCI source").detail "source" name)
  match Token.Stream.ofSource source with
  | .ok stream => ofStream name stream limits none
  | .error fault => throw (.tokens fault)

/-- Reads the file that a path leads to. -/
def openFile (preferences : Storage.Preferences) (path : String) (lookup : Storage.Lookup) :
    Making Storage.SourceFile := fun events =>
  match Storage.SourceFile.Opening.sourceFile preferences path lookup events with
  | .ok file events => .ok file events
  | .error fault events => .error (.file fault) events

/-- The stream of a file, which is logged. -/
def streamOf (file : Storage.SourceFile) : Making Token.Stream := fun events =>
  match Token.Stream.ofSource file.source with
  | .ok stream =>
    .ok stream (events.push
      ((Event.ofSuccess Milestone.tokensReady.text "Token scanner ready").details
        [("file", file.metadata.path), ("lines", toString file.metadata.lineCount)]))
  | .error fault =>
    .error (.tokens fault) (events.push
      ((Event.ofError (Statement.faultCode fault).text fault.message).detail
        "line" (toString fault.line)))

/-- Makes a description from the file that a path leads to. -/
def ofFile (preferences : Storage.Preferences) (path : String) (lookup : Storage.Lookup)
    (limits : Limits) : Making Description := do
  tell ((Event.ofInfo "Starting RCI file processing pipeline").detail "file" path)
  let file ← openFile preferences path lookup
  let stream ← streamOf file
  ofStream file.metadata.fileName stream limits (some file.metadata)

/-- The outcome of making a description, with a mark put on each event. -/
def outcome (making : Making Description) (mark : Event → Event) : Outcome :=
  match making #[] with
  | .ok d events => ⟨.ok d, events.map mark⟩
  | .error rejection events => ⟨.error rejection, events.map mark⟩

end Making

/-- Makes a description from a text that is known as `name`. -/
def ofSource (name source : String) (limits : Limits) : Outcome :=
  (Making.ofSource name source limits).outcome (·.inFile name 0)

/-- Makes a description from the file that a path leads to.  Its events name the
file if they are to. -/
def ofFile (preferences : Storage.Preferences) (path : String) (lookup : Storage.Lookup)
    (limits : Limits) (namesFile : Bool) : Outcome :=
  (Making.ofFile preferences path lookup limits).outcome fun event =>
    if namesFile then event.inFile path 0 else event

/-- The description as a document; `duration` is how long it took to make, in
microseconds. -/
def toJson (d : Description) (duration : Nat) : Json :=
  .object [("file", .text d.name), ("lines", .count d.lineCount),
    ("duration_ms", .decimal duration 3), ("configuration", d.session.toJson)]

end Description
end DeviceSchema
