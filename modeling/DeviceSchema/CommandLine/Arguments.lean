import DeviceSchema.Settings.Document
import DeviceSchema.Settings.Environment

/-! # Arguments

The arguments of a run name one file and may give options.  An option has a long
name after two hyphens, or a letter after one; a value follows it, or stands behind
an equals sign.  After two hyphens alone no options come.  No option may be given
twice.
-/
namespace DeviceSchema

/-- What the arguments of a run ask for. -/
structure CommandLine where
  /-- The file to process; it is empty until an argument names one. -/
  file : String := ""
  nameLength : Option Nat := none
  keyLength : Option Nat := none
  attributeLength : Option Nat := none
  /-- The file with settings. -/
  config : Option String := none
  /-- Whether the description is printed as JSON. -/
  json : Bool := false
  verbose : Bool := false
  structuredLogs : Bool := false
deriving DecidableEq, Repr

namespace CommandLine

/-- Why no file is processed. -/
inductive Stop where
  | help
  | version
  /-- The arguments make no sense. -/
  | refused
deriving DecidableEq, Repr

/-- Refuses arguments at fault. -/
def refusedIf (c : CommandLine) (fault : Bool) : Except Stop CommandLine :=
  if fault then .error .refused else .ok c

/-- Names the file to process. -/
def nameFile (c : CommandLine) (path : String) : Except Stop CommandLine :=
  { c with file := path }.refusedIf (path.isEmpty || !c.file.isEmpty)

/-- The options that have a value. -/
def takesValue (name : String) : Bool :=
  ["max-name-length", "max-key-length", "max-attribute-length", "config"].contains name

/-- Gives a length that had none. -/
def lengthOnce (given : Option Nat) (value : String) : Except Stop (Option Nat) :=
  match given, Settings.length? value with
  | none, some length => .ok (some length)
  | _, _ => .error .refused

/-- Gives an option its value. -/
def put (c : CommandLine) (name value : String) : Except Stop CommandLine :=
  match name with
  | "max-name-length" => do return { c with nameLength := ← lengthOnce c.nameLength value }
  | "max-key-length" => do return { c with keyLength := ← lengthOnce c.keyLength value }
  | "max-attribute-length" => do
    return { c with attributeLength := ← lengthOnce c.attributeLength value }
  | "config" => { c with config := some value }.refusedIf (value.isEmpty || c.config.isSome)
  | _ => .error .refused

/-- Gives an option without a value. -/
def turnOn (c : CommandLine) (name : String) : Except Stop CommandLine :=
  match name with
  | "json" => { c with json := true }.refusedIf c.json
  | "verbose" => { c with verbose := true }.refusedIf c.verbose
  | "structured-logs" => { c with structuredLogs := true }.refusedIf c.structuredLogs
  | "help" => .error .help
  | "version" => .error .version
  | _ => .error .refused

/-- Gives the option of a letter. -/
def turnOnLetter (c : CommandLine) (letter : Char) : Except Stop CommandLine :=
  match letter with
  | 'v' => c.turnOn "verbose"
  | 'h' => c.turnOn "help"
  | 'V' => c.turnOn "version"
  | _ => .error .refused

/-- The name and the value of a long option. -/
def parts (text : List Char) : String × Option String :=
  let name := String.ofList (text.takeWhile (· ≠ '='))
  match text.dropWhile (· ≠ '=') with
  | _ :: value => (name, some (String.ofList value))
  | [] => (name, none)

/-- Whether an argument is no option: a single hyphen is none. -/
def isPlain (argument : String) : Bool := argument = "-" || !argument.startsWith "-"

/-- Reads arguments after those that have been read. -/
def readAfter (c : CommandLine) : List String → Except Stop CommandLine
  | [] => .ok c
  | "--" :: files => files.foldlM nameFile c
  | argument :: rest =>
    if isPlain argument then do (← c.nameFile argument).readAfter rest
    else match argument.toList with
      | _ :: '-' :: text =>
        match parts text, rest with
        | (name, some value), rest => do (← c.put name value).readAfter rest
        | (name, none), rest =>
          if takesValue name then
            match rest with
            | value :: rest =>
              if isPlain value then do (← c.put name value).readAfter rest else .error .refused
            | [] => .error .refused
          else do (← c.turnOn name).readAfter rest
      | letters => do (← (letters.drop 1).foldlM turnOnLetter c).readAfter rest

/-- Reads the arguments of a run. -/
def ofArguments (arguments : List String) : Except Stop CommandLine := do
  let c ← readAfter {} arguments
  c.refusedIf c.file.isEmpty

/-- The settings of a run: arguments go before a file of settings, and that before
the environment. -/
def settings (c : CommandLine) (environment : String → Option String)
    (lookup : String → Storage.Lookup) : Except Settings.Fault Settings := do
  let usual := Settings.ofEnvironment environment
  let chosen ← match c.config with
    | some path => usual.ofFile path (lookup path)
    | none => .ok usual
  let limits : Limits := {
    attributeLength := c.attributeLength.getD chosen.limits.attributeLength
    nameLength := c.nameLength.getD chosen.limits.nameLength
    keyLength := (c.keyLength.map Nat.toUInt64).getD chosen.limits.keyLength }
  let logging := { chosen.logging with
    structured := c.structuredLogs || chosen.logging.structured
    console := c.verbose || c.structuredLogs || chosen.logging.console
    least := if c.verbose then chosen.logging.least.widest .info else chosen.logging.least }
  return { chosen with limits, logging }

end CommandLine
end DeviceSchema
