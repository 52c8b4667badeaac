import DeviceSchema.Settings.Basic

/-! # Settings from the environment

Every setting has a variable.  One that is not set, or says nothing sensible, leaves
the setting at its default.
-/
namespace DeviceSchema

/-- The variables that settings are taken from. -/
def Settings.variableNames : List String :=
  ["RCI_MAX_ATTRIBUTE_LENGTH", "RCI_MAX_NAME_LENGTH", "RCI_MAX_KEY_LENGTH",
    "RCI_REQUIRE_RCI_EXTENSION", "RCI_ENABLE_PERFORMANCE_LOGGING", "RCI_ALLOW_LATIN1_FALLBACK",
    "RCI_LOGGING_USE_STRUCTURED", "RCI_LOGGING_ENABLE_CONSOLE", "RCI_LOGGING_MIN_LEVEL",
    "RCI_LOGGING_INCLUDE_FILE_CONTEXT"]

/-- A truth value in words. -/
def Settings.bool? (text : String) : Option Bool :=
  if text = "true" then some true
  else if text = "false" then some false
  else none

/-- The level that a word or its rank names, in any case. -/
def Level.ofText? (text : String) : Option Level :=
  [("error", error), ("0", error), ("warning", warning), ("warn", warning), ("1", warning),
    ("info", info), ("2", info), ("debug", debug), ("3", debug)].lookup (Text.lowercase text)

/-- The limits that variables choose. -/
def Limits.ofEnvironment (environment : String → Option String) : Limits :=
  let chosen := fun name => (environment name).bind Settings.length?
  let usual : Limits := {}
  { attributeLength := (chosen "RCI_MAX_ATTRIBUTE_LENGTH").getD usual.attributeLength
    nameLength := (chosen "RCI_MAX_NAME_LENGTH").getD usual.nameLength
    keyLength := ((chosen "RCI_MAX_KEY_LENGTH").map Nat.toUInt64).getD usual.keyLength }

/-- The ways of reading files that variables choose. -/
def Storage.Preferences.ofEnvironment (environment : String → Option String) : Preferences :=
  let chosen := fun name default => ((environment name).bind Settings.bool?).getD default
  let usual : Preferences := {}
  { requireExtension := chosen "RCI_REQUIRE_RCI_EXTENSION" usual.requireExtension
    logMeasures := chosen "RCI_ENABLE_PERFORMANCE_LOGGING" usual.logMeasures
    allowLatin1 := chosen "RCI_ALLOW_LATIN1_FALLBACK" usual.allowLatin1 }

/-- The log that variables choose. -/
def Logging.ofEnvironment (environment : String → Option String) : Logging :=
  let chosen := fun name default => ((environment name).bind Settings.bool?).getD default
  let usual : Logging := {}
  { structured := chosen "RCI_LOGGING_USE_STRUCTURED" usual.structured
    console := chosen "RCI_LOGGING_ENABLE_CONSOLE" usual.console
    least := ((environment "RCI_LOGGING_MIN_LEVEL").bind Level.ofText?).getD usual.least
    namesFile := chosen "RCI_LOGGING_INCLUDE_FILE_CONTEXT" usual.namesFile }

/-- The settings that variables choose. -/
def Settings.ofEnvironment (environment : String → Option String) : Settings where
  limits := .ofEnvironment environment
  files := .ofEnvironment environment
  logging := .ofEnvironment environment

end DeviceSchema
