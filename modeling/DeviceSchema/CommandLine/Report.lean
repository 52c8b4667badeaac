import DeviceSchema.CommandLine.Arguments
import DeviceSchema.Description

/-! # Reports

What a run says: its output, its notes, which are the log and messages for the user,
and how it ends.
-/
namespace DeviceSchema

/-- How a run ends. -/
inductive Ending where
  | success
  | failure
  /-- The arguments made no sense. -/
  | refusal
deriving DecidableEq, Repr

/-- The status that a run gives to its caller. -/
def Ending.status : Ending → Nat
  | success => 0
  | failure => 1
  | refusal => 2

/-- Something that is said beside the output. -/
inductive Note where
  | plain (text : String)
  /-- An event that is written as JSON. -/
  | structured (event : Event)
deriving DecidableEq, Repr

/-- A note as text.  An event is written at a time; one that is timed took the
duration. -/
def Note.render (time duration : String) : Note → String
  | plain text => text
  | structured event => ((event.lasting duration).toJson time).compact

/-- What a run says. -/
structure Report where
  ending : Ending
  output : List String := []
  notes : List Note := []
deriving DecidableEq, Repr

namespace Report

/-- How the program is used. -/
def help : List String := [
  "Parser and validator for RCI device configuration descriptions",
  "",
  "Usage: rci_compiler [OPTIONS] <FILE>",
  "",
  "Arguments:",
  "  <FILE>  Configuration file to process",
  "",
  "Options:",
  "      --max-name-length <MAX_NAME_LENGTH>",
  "          Maximum length of element, collection and value names",
  "      --max-key-length <MAX_KEY_LENGTH>",
  "          Maximum key length for dynamic dictionaries",
  "      --max-attribute-length <MAX_ATTRIBUTE_LENGTH>",
  "          Maximum length of descriptor attribute values",
  "      --config <CONFIG>",
  "          Runtime configuration in TOML",
  "      --json",
  "          Print the validated configuration as JSON",
  "  -v, --verbose",
  "          Log progress to stderr",
  "      --structured-logs",
  "          Emit log events as JSON lines",
  "  -h, --help",
  "          Print help",
  "  -V, --version",
  "          Print version"]

def version : String := "rci_compiler 0.1.0"

/-- The report of a run that processes no file. -/
def ofStop : CommandLine.Stop → Report
  | .help => ⟨.success, help, []⟩
  | .version => ⟨.success, [version], []⟩
  | .refused =>
    ⟨.refusal, [], [.plain "error: invalid arguments\n\nFor more information, try '--help'."]⟩

/-- The report of a run whose settings are at fault. -/
def ofSettingsFault (fault : Settings.Fault) : Report :=
  ⟨.failure, [], [.plain ("Error: " ++ fault.message)]⟩

/-- The event that opens a log. -/
def opening : Event := .ofSuccess Milestone.logReady.text "Global logging system initialized"

/-- An event as a note. -/
def note (logging : Logging) (event : Event) : Note :=
  if logging.structured then .structured event else .plain event.render

/-- A description in a few lines, and how long it took to make, in microseconds. -/
def summary (d : Description) (duration : Nat) : List String :=
  let s := d.session
  let known := s.statistics
  ["Processed " ++ d.name,
    "  Groups: " ++ toString s.setting.groups.length ++ " setting, " ++
      toString s.state.groups.length ++ " state",
    "  Max list depth: " ++ toString known.listDepth,
    "  Longest names: " ++ toString known.collectionName ++ " collection, " ++
      toString known.elementName ++ " element, " ++ toString known.memberName ++ " value",
    "  Types: " ++ ", ".intercalate (known.types.map ValueType.word),
    "  Duration: " ++ Text.fixed (Text.roundedQuotient duration 10) 2 ++ " ms"]

/-- The report of a run that has read its file, which took so many microseconds. -/
def ofOutcome (c : CommandLine) (logging : Logging) (outcome : Description.Outcome)
    (duration : Nat) : Report :=
  let events := (opening :: outcome.events.toList).filter logging.shows
  let notes := events.map (note logging)
  match outcome.result with
  | .error rejection => ⟨.failure, [], notes ++ [.plain (rejection.diagnostic c.file)]⟩
  | .ok d =>
    let output := if c.json then [(d.toJson duration).indented 0] else summary d duration
    ⟨.success, output, notes⟩

end Report

/-- Reads the file of a run. -/
def CommandLine.describe [PatternCompiler] (c : CommandLine) (settings : Settings)
    (lookup : String → Storage.Lookup) : Description.Outcome :=
  Description.ofFile settings.files c.file (lookup c.file) settings.limits settings.logging.namesFile

end DeviceSchema
