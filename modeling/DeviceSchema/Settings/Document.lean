import DeviceSchema.Settings.Basic
import DeviceSchema.Storage.Directory
import DeviceSchema.Toml.Document

/-! # Settings in documents

Settings are read from a TOML document with a table for each of their parts.  What
the document leaves open is taken from other settings, and what it adds is ignored.
Settings are written as JSON.
-/
namespace DeviceSchema

section Reading

/-- The named fields that a value has.  A table has them by name, an array in order;
a moment, which is a table of its own kind, has none of them. -/
def Toml.Value.fields? (names : List String) : Toml.Value → Option Toml.Table
  | table _ entries => some entries
  | array values => some (names.zip values)
  | moment => some []
  | _ => none

/-- Reads a field; one that is missing leaves what was there. -/
def Toml.Table.field {α : Type} (fields : Toml.Table) (name : String)
    (read : Toml.Value → Option α) (missing : α) : Option α :=
  match fields.lookup name with
  | some value => read value
  | none => some missing

def Toml.Value.bool? : Toml.Value → Option Bool
  | boolean value => some value
  | _ => none

def Toml.Value.nat? : Toml.Value → Option Nat
  | integer value => if 0 ≤ value then some value.toNat else none
  | _ => none

/-- A level is given by its word, or by an empty table under its word.  Between
braces, that table stands alone. -/
def Level.ofToml? : Toml.Value → Option Level
  | .text word => ofWord? word
  | .table .braces [(word, .table _ [])] => ofWord? word
  | .table .braces _ => none
  | .table _ ((word, .table _ []) :: _) => ofWord? word
  | _ => none

/-- Reads limits over others. -/
def Limits.ofToml? (usual : Limits) (value : Toml.Value) : Option Limits := do
  let fields ← value.fields?
    ["max_attribute_length", "max_name_length", "max_dynamic_key_length"]
  return {
    attributeLength := ← fields.field "max_attribute_length" Toml.Value.nat? usual.attributeLength
    nameLength := ← fields.field "max_name_length" Toml.Value.nat? usual.nameLength
    keyLength := ← fields.field "max_dynamic_key_length" (·.nat?.map Nat.toUInt64)
      usual.keyLength }

/-- Reads ways of reading files over others. -/
def Storage.Preferences.ofToml? (usual : Preferences) (value : Toml.Value) :
    Option Preferences := do
  let fields ← value.fields?
    ["require_rci_extension", "enable_performance_logging", "allow_latin1_fallback"]
  return {
    requireExtension :=
      ← fields.field "require_rci_extension" Toml.Value.bool? usual.requireExtension
    logMeasures := ← fields.field "enable_performance_logging" Toml.Value.bool? usual.logMeasures
    allowLatin1 := ← fields.field "allow_latin1_fallback" Toml.Value.bool? usual.allowLatin1 }

/-- Reads what a log shows over another. -/
def Logging.ofToml? (usual : Logging) (value : Toml.Value) : Option Logging := do
  let fields ← value.fields? ["use_structured_logging", "enable_console_logging",
    "min_log_level", "include_file_context"]
  return {
    structured := ← fields.field "use_structured_logging" Toml.Value.bool? usual.structured
    console := ← fields.field "enable_console_logging" Toml.Value.bool? usual.console
    least := ← fields.field "min_log_level" Level.ofToml? usual.least
    namesFile := ← fields.field "include_file_context" Toml.Value.bool? usual.namesFile }

/-- Reads settings from the text of a document over others. -/
def Settings.ofText? (usual : Settings) (text : String) : Option Settings := do
  let fields ← Toml.ofText? text
  return {
    limits := ← fields.field "limits" usual.limits.ofToml? usual.limits
    files := ← fields.field "file_processor" usual.files.ofToml? usual.files
    logging := ← fields.field "logging" usual.logging.ofToml? usual.logging }

end Reading

section Files

/-- Why a file has no settings. -/
inductive Settings.Fault where
  | unreadable (path reason : String)
  | malformed (path : String)
deriving DecidableEq, Repr

def Settings.Fault.message : Settings.Fault → String
  | unreadable path reason =>
    "Failed to read configuration file '" ++ path ++ "': " ++ reason
  | malformed path => "Invalid configuration file '" ++ path ++ "'"

/-- The reason as the file system states it. -/
def Storage.Absence.reason : Absence → String
  | notFound => "No such file or directory (os error 2)"
  | notADirectory => "Not a directory (os error 20)"
  | nameTooLong => "File name too long (os error 36)"
  | malformed => "file name contained an unexpected NUL byte"

/-- Reads settings from the file that a path leads to, over others. -/
def Settings.ofFile (usual : Settings) (path : String) :
    Storage.Lookup → Except Fault Settings
  | .absent reason => .error (.unreadable path reason.reason)
  | .directory => .error (.unreadable path "Is a directory (os error 21)")
  | .denied _ => .error (.unreadable path "Permission denied (os error 13)")
  | .unreadable _ reason => .error (.unreadable path reason)
  | .file _ bytes =>
    match String.fromUTF8? bytes with
    | none => .error (.unreadable path "stream did not contain valid UTF-8")
    | some text =>
      match usual.ofText? text with
      | some settings => .ok settings
      | none => .error (.malformed path)

end Files

section Writing

def Storage.Preferences.toJson (p : Preferences) : Json :=
  .object [("require_rci_extension", .bool p.requireExtension),
    ("enable_performance_logging", .bool p.logMeasures),
    ("allow_latin1_fallback", .bool p.allowLatin1)]

def Logging.toJson (logging : Logging) : Json :=
  .object [("use_structured_logging", .bool logging.structured),
    ("enable_console_logging", .bool logging.console),
    ("min_log_level", .text logging.least.word),
    ("include_file_context", .bool logging.namesFile)]

end Writing
end DeviceSchema
