import DeviceSchema.CommandLine.Report
import DeviceSchema.Journal.Instant
import DeviceSchema.Text.Pattern
import Std.Time.DateTime

/-! # The program

Reads the arguments, the environment and the files of a run, and says its report.
-/
namespace DeviceSchema.Program

local instance : PatternCompiler := Text.Pattern.compiler

/-- What a path leads to when it cannot be read.  Only directories are opened first. -/
def lookupOfError (path : String) (error : IO.Error) : Storage.Lookup :=
  match error with
  | .noFileOrDirectory _ _ _ => .absent .notFound
  | .inappropriateType none _ _ => .directory
  | .inappropriateType (some _) _ _ => .absent .notADirectory
  | .invalidArgument _ 22 _ => .absent .malformed
  | .invalidArgument _ _ _ => .absent .nameTooLong
  | .permissionDenied _ _ _ => .denied path
  | _ => .unreadable path (toString error)

/-- What a path leads to. -/
def look (path : String) : IO Storage.Lookup := do
  if path.isEmpty then return .absent .notFound
  try
    let bytes ← IO.FS.readBinFile path
    let found ← IO.FS.realPath path
    return .file (toString found) bytes
  catch error => return lookupOfError path error

/-- The variables of the environment that are set. -/
def variablesSet : IO (List (String × String)) := do
  let found ← Settings.variableNames.mapM fun name => return (name, ← IO.getEnv name)
  return found.filterMap fun (name, value) => value.map (name, ·)

/-- The present instant. -/
def present : IO String := do
  let now ← Std.Time.Timestamp.now
  return instantText now.toMillisecondsSinceUnixEpoch.val.toNat

/-- The report of a run, and how long it took to read the file, in microseconds. -/
def process (c : CommandLine) : IO (Report × Nat) := do
  let set ← variablesSet
  let config ← look (c.config.getD "")
  match c.settings (fun name => set.lookup name) (fun _ => config) with
  | .error fault => return (.ofSettingsFault fault, 0)
  | .ok settings => do
    let start ← IO.monoNanosNow
    let file ← look c.file
    let outcome ← IO.lazyPure fun _ => c.describe settings fun _ => file
    let duration := ((← IO.monoNanosNow) - start) / 1000
    return (.ofOutcome c settings.logging outcome duration, duration)

/-- Says what a report holds. -/
def say (report : Report) (duration : Nat) : IO UInt32 := do
  let time ← present
  report.notes.forM fun note => IO.eprintln (note.render time (Text.fixed duration 3))
  report.output.forM fun text => IO.println text
  return report.ending.status.toUInt32

end DeviceSchema.Program

def main (arguments : List String) : IO UInt32 := do
  match DeviceSchema.CommandLine.ofArguments arguments with
  | .error stop => DeviceSchema.Program.say (.ofStop stop) 0
  | .ok c => do
    let (report, duration) ← DeviceSchema.Program.process c
    DeviceSchema.Program.say report duration
