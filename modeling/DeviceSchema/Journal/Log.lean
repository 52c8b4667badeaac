import DeviceSchema.Journal.Event

/-! # Logs

A **log** keeps the events of a run in order, the last `Ceiling.logEvents` of
them.  A **sink** is a log that takes only events that pass a least level.
-/
namespace DeviceSchema

/-- The events kept, oldest first. -/
structure Log where
  events : Array Event := #[]
deriving DecidableEq, Repr

namespace Log

/-- The events kept, oldest first. -/
def toList (log : Log) : List Event := log.events.toList

def size (log : Log) : Nat := log.events.size

/-- Adds an event; a full log gives up its oldest ones first. -/
def add (log : Log) (event : Event) : Log :=
  let excess := log.size + 1 - Ceiling.logEvents
  if excess = 0 then ⟨log.events.push event⟩
  else ⟨(log.events.extract excess log.size).push event⟩

def errors (log : Log) : List Event := log.toList.filter Event.isError

def withCode (log : Log) (code : String) : List Event := log.toList.filter (·.code = code)

def hasError (log : Log) (code : String) : Bool :=
  log.toList.any fun e => e.isError && e.code = code

def hasSuccess (log : Log) (code : String) : Bool :=
  log.toList.any fun e => e.isInfo && e.code = code

def ofCategory (log : Log) (category : String) : List Event :=
  log.toList.filter (·.classification.category = category)

end Log

/-- A log behind a least level. -/
structure Sink where
  least : Level
  log : Log := {}
deriving DecidableEq, Repr

namespace Sink

/-- Adds an event that passes the least level. -/
def add (sink : Sink) (event : Event) : Sink :=
  if event.level.passes sink.least then { sink with log := sink.log.add event } else sink

/-- Adds events in order. -/
def addAll (sink : Sink) (events : List Event) : Sink := events.foldl add sink

end Sink
end DeviceSchema
