import DeviceSchema.Journal.Event
import DeviceSchema.Storage.SourceFile
import DeviceSchema.Text.Blank
import DeviceSchema.Text.Numeral

/-! # Settings

What a run may choose: the limits of the device, how files are read, and what the
log shows.
-/
namespace DeviceSchema

/-- What the log of a run shows. -/
structure Logging where
  /-- Whether events are written as JSON. -/
  structured : Bool := false
  /-- Whether events are shown at all. -/
  console : Bool := false
  least : Level := .info
  /-- Whether events name the file that they are about. -/
  namesFile : Bool := true
deriving DecidableEq, Repr

structure Settings where
  limits : Limits := {}
  files : Storage.Preferences := {}
  logging : Logging := {}
deriving DecidableEq, Repr

namespace Settings

/-- A length in words: a positive whole number of 64 bits, which may have blanks
around it. -/
def length? (text : String) : Option Nat :=
  (Text.word? 64 (Text.trim text).toList).filter (0 < ·)

end Settings

namespace Logging

/-- Whether an event is shown. -/
def shows (logging : Logging) (event : Event) : Bool :=
  logging.console && event.level.passes logging.least

/-- What is known about the log, in lines. -/
def summary (logging : Logging) : String :=
  "Logging Configuration:\n- Log buffer size: " ++ toString Ceiling.logEvents ++
    "\n- Max message length: " ++ toString Ceiling.messageBytes ++
    "\n- Min log level: " ++ logging.least.name ++
    "\n- Structured logging: " ++ toString logging.structured ++
    "\n- Console logging: " ++ toString logging.console ++
    "\n- Include file context: " ++ toString logging.namesFile

/-- What is known about a log that takes events of a level. -/
def diagnostics (logging : Logging) (active : Level) : String :=
  "=== Logging System Diagnostics ===\nInitialized: true\nActive level: " ++ active.tag ++
    "\n\n" ++ logging.summary

end Logging
end DeviceSchema
