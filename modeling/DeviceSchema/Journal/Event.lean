import DeviceSchema.Journal.Code
import DeviceSchema.Json
import DeviceSchema.Limits
import DeviceSchema.Place

/-! # Events

An **event** of a log has a level, a code, a message and a context of named
details.  Messages are bounded: of a longer one the log keeps the longest prefix
of whole characters that fits, and marks the cut with three points.

A stage that is timed does not know its duration when it makes its event; such an
event is `timed`, and whoever writes it fills the duration in with `lasting`.
-/
namespace DeviceSchema

/-- How much an event matters; the order is that of `rank`. -/
inductive Level where
  | error
  | warning
  | info
  | debug
deriving DecidableEq, Repr

namespace Level

def all : List Level := [error, warning, info, debug]

/-- Lower ranks matter more. -/
def rank : Level → Nat
  | error => 0
  | warning => 1
  | info => 2
  | debug => 3

/-- The level as logs name it. -/
def tag : Level → String
  | error => "ERROR"
  | warning => "WARN"
  | info => "INFO"
  | debug => "DEBUG"

/-- The level as settings name it. -/
def word : Level → String
  | error => "error"
  | warning => "warning"
  | info => "info"
  | debug => "debug"

def ofWord? (text : String) : Option Level := all.find? (·.word = text)

/-- The level as people name it. -/
def name : Level → String
  | error => "Error"
  | warning => "Warning"
  | info => "Info"
  | debug => "Debug"

/-- Whether an event of this level is wanted when `least` is the least level. -/
def passes (level least : Level) : Bool := level.rank ≤ least.rank

/-- The less severe of two levels. -/
def widest (a b : Level) : Level := if a.passes b then b else a

end Level

section Bounding
variable {text : String} {byte : Nat}

/-- A boundary of characters that a search found, so many steps before the byte where the
search began. -/
structure Boundary (text : String) where
  place : text.Pos
  steps : Nat

/-- The same boundary, found from one byte further on. -/
def Boundary.further (found : Boundary text) : Boundary text :=
  { found with steps := found.steps + 1 }

/-- Searches for a boundary of characters, from a byte of a text backwards and byte by byte.
A search that would go on in front of the text finds none. -/
def boundary? (text : String) (byte : Nat) : Option (Boundary text) :=
  if between : String.Pos.Raw.IsValid text ⟨byte⟩ then
    some { place := text.pos ⟨byte⟩ between, steps := 0 }
  else
    match byte with
    | 0 => none
    | byte + 1 => (boundary? text byte).map Boundary.further

theorem boundary?_of_isValid (between : String.Pos.Raw.IsValid text ⟨byte⟩) :
    boundary? text byte = some { place := text.pos ⟨byte⟩ between, steps := 0 } := by
  rw [boundary?, dif_pos between]

theorem boundary?_succ (inside : ¬ String.Pos.Raw.IsValid text ⟨byte + 1⟩) :
    boundary? text (byte + 1) = (boundary? text byte).map Boundary.further := by
  rw [boundary?, dif_neg inside]

/-- No search goes on in front of a text, since the start of the text is a boundary. -/
theorem isSome_boundary? (text : String) (byte : Nat) : (boundary? text byte).isSome := by
  induction byte with
  | zero =>
    rw [boundary?_of_isValid String.Pos.Raw.isValid_zero]
    rfl
  | succ byte ih =>
    by_cases between : String.Pos.Raw.IsValid text ⟨byte + 1⟩
    · rw [boundary?_of_isValid between]
      rfl
    · rw [boundary?_succ between, Option.isSome_map]
      exact ih

/-- The whole characters of a text in front of a byte. -/
def wholeBefore (text : String) (byte : Nat) : String :=
  (text.sliceTo ((boundary? text byte).get (isSome_boundary? text byte)).place).copy

/-- A message cut to the length that a log keeps. -/
def boundedMessage (message : String) : String :=
  if message.utf8ByteSize ≤ Ceiling.messageBytes then message
  else wholeBefore message Ceiling.messageBytes ++ "..."

end Bounding

/-- Something that a log tells. -/
structure Event where
  level : Level
  code : String
  message : String
  span : Option Span := none
  /-- Details by name, each name once. -/
  context : List (String × String) := []
  /-- Whether a duration belongs to the context. -/
  timed : Bool := false
deriving DecidableEq, Repr

namespace Event

section Making

def ofError (code message : String) : Event :=
  { level := .error, code, message := boundedMessage message }

def ofWarning (message : String) : Event :=
  { level := .warning, code := "W000", message := boundedMessage message }

def ofInfo (message : String) : Event :=
  { level := .info, code := "I000", message := boundedMessage message }

/-- An event that tells of something completed. -/
def ofSuccess (code message : String) : Event :=
  { level := .info, code, message := boundedMessage message }

def ofDebug (message : String) : Event :=
  { level := .debug, code := "D000", message := boundedMessage message }

/-- Adds a detail; one of the same name is replaced. -/
def detail (e : Event) (name value : String) : Event :=
  if e.context.any (·.1 = name) then
    { e with context := e.context.map fun d => if d.1 = name then (name, value) else d }
  else { e with context := e.context ++ [(name, value)] }

/-- Adds details in order. -/
def details (e : Event) (details : List (String × String)) : Event :=
  details.foldl (fun e d => e.detail d.1 d.2) e

/-- Places the event in the source. -/
def spanning (e : Event) (span : Span) : Event := { e with span := some span }

/-- Says which file the event is about. -/
def inFile (e : Event) (path : String) (number : Nat) : Event :=
  (e.detail "file_path" path).detail "file_id" (toString number)

/-- Fills in the duration of a timed event. -/
def lasting (e : Event) (duration : String) : Event :=
  if e.timed then { e.detail "duration_ms" duration with timed := false } else e

end Making

def isError (e : Event) : Bool := e.level = .error

def isWarning (e : Event) : Bool := e.level = .warning

def isInfo (e : Event) : Bool := e.level = .info

def isDebug (e : Event) : Bool := e.level = .debug

/-- What is known about the code of the event. -/
def classification (e : Event) : Classification := .ofText e.code

section Writing

/-- The event in a line. -/
def render (e : Event) : String :=
  let place := match e.span with
    | some span => " at " ++ span.start.render
    | none => ""
  "[" ++ e.level.tag ++ "] " ++ e.code ++ " - " ++ e.message ++ place

/-- The event with all that is known about it. -/
def renderDetailed (e : Event) : String :=
  let known := e.classification
  let halts := if e.isError then "\n  Requires halt: " ++ toString known.halts else ""
  let action :=
    if known.action = Classification.noAction then ""
    else "\n  Recommended action: " ++ known.action
  let context :=
    if e.context.isEmpty then ""
    else "\n  Context:" ++
      String.join ((Json.byName e.context).map fun (name, value) =>
        "\n    " ++ name ++ ": " ++ value)
  e.render ++ "\n  Category: " ++ known.category ++ "\n  Severity: " ++ known.severity.word ++
    halts ++ action ++ context

/-- The details as members. -/
def contextJson (e : Event) : Json := .object (e.context.map fun d => (d.1, .text d.2))

/-- The members of a structured log line, without the time. -/
def members (e : Event) : List (String × Json) :=
  let known := e.classification
  let metadata := if e.isError then
      [("error_metadata", Json.object [("recoverable", .bool known.recoverable),
        ("requires_halt", .bool known.halts), ("description", .text known.description),
        ("recommended_action", .text known.action)])]
    else []
  let place := match e.span with
    | some span => [("span", Json.object [("start_line", .count span.start.line),
        ("start_column", .count span.start.column), ("end_line", .count span.stop.line),
        ("end_column", .count span.stop.column)])]
    | none => []
  let context :=
    if e.context.isEmpty then [] else [("context", e.contextJson)]
  [("level", .text e.level.tag), ("code", .text e.code), ("message", .text e.message),
    ("category", .text known.category), ("severity", .text known.severity.word)] ++
    metadata ++ place ++ context

/-- The structured log line of an event at a time. -/
def toJson (e : Event) (time : String) : Json := .object (("timestamp", .text time) :: e.members)

end Writing
end Event
end DeviceSchema
