import DeviceSchema.CrossReference.Source
import DeviceSchema.Journal.Event

/-! # Checking a session as a whole

References and sources may point to what is declared later, so they are checked
once all statements have been read.  All checks come first; only then are the
ranges of the `ref_enum` elements stored, so a session that fails is left as it
was.
-/
namespace DeviceSchema.CrossReference

/-- What a check has looked at. -/
structure Counts where
  refEnums : Nat
  conditions : Nat
  unused : Nat
deriving DecidableEq, Repr

def Counts.toJson (counts : Counts) : Json :=
  .object [("ref_enums_resolved", .count counts.refEnums),
    ("conditions_checked", .count counts.conditions), ("unused_conditions", .count counts.unused)]

/-- The session under check and the events logged so far. -/
structure Progress where
  session : Session
  events : Array Event := #[]

/-- A step of a check, which logs events and may find a fault. -/
abbrev Checking := EStateM Fault Progress

namespace Checking

/-- The session under check. -/
def session : Checking Session := fun p => .ok p.session p

/-- Logs an event. -/
def tell (event : Event) : Checking Unit := fun p =>
  .ok () { p with events := p.events.push event }

end Checking

/-- The event that tells of a fault. -/
def Fault.event (fault : Fault) : Event :=
  (Event.ofError fault.code.text fault.message).details
    [("severity", fault.code.severity.word), ("category", fault.code.category)]

namespace Checking

/-- The value of a step, or its fault, which is logged. -/
def reporting {α : Type} : Except Fault α → Checking α
  | .ok value => pure value
  | .error fault => fun p => .error fault { p with events := p.events.push fault.event }

/-- Warns of a condition that no node carries. -/
def warnUnused (table : Table) (name : String) : Checking Unit :=
  tell ((Event.ofWarning "Condition is never attached").details
    [("condition", name), ("table", table.kind.word)])

/-- Checks the sources of the conditions of a table and warns of those that are
unused.  The answer is the number of both. -/
def checkTable (table : Table) : Checking (Nat × Nat) := do
  let checked ← reporting (checkSources table)
  let names := unused table
  names.forM (warnUnused table)
  return (checked, names.length)

/-- Stores ranges on their elements. -/
def storeRanges (ranges : List LengthRange) : Checking Unit := do
  let (result, session) := storeAll (← session) ranges
  modify fun p => { p with session }
  reporting result

/-- Logs a range. -/
def tellRange (range : LengthRange) : Checking Unit :=
  tell ((Event.ofDebug "ref_enum range").details
    [("element", range.path.render), ("min", toString range.min), ("max", toString range.max)])

/-- Checks the session and stores the ranges of its `ref_enum` elements. -/
def all : Checking Counts := do
  let session ← session
  tell ((Event.ofInfo "Starting cross-reference validation").details
    [("ref_enums", toString session.refEnums.length), ("groups", toString session.groupCount)])
  let ranges ← reporting (ranges session)
  tell ((Event.ofSuccess Milestone.referencesResolved.text "ref_enum references resolved").detail
    "count" (toString ranges.length))
  let (settings, unusedSettings) ← checkTable session.setting
  let (states, unusedStates) ← checkTable session.state
  let conditions := settings + states
  tell ((Event.ofSuccess Milestone.conditionsResolved.text "Condition sources resolved").detail
    "count" (toString conditions))
  storeRanges ranges
  ranges.forM tellRange
  tell { (Event.ofSuccess Milestone.crossReferenced.text
      "Cross-reference validation complete").details
      [("ref_enums", toString ranges.length), ("conditions", toString conditions)] with
    timed := true }
  return ⟨ranges.length, conditions, unusedSettings + unusedStates⟩

end Checking

/-- The outcome of a check: its counts or the fault, and the progress that it
made. -/
structure Outcome where
  result : Except Fault Counts
  progress : Progress

/-- Checks a session, whose events follow those already there. -/
def check (p : Progress) : Outcome :=
  match Checking.all p with
  | .ok counts p => ⟨.ok counts, p⟩
  | .error fault p => ⟨.error fault, p⟩

end DeviceSchema.CrossReference
