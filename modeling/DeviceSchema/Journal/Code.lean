/-! # Codes

Every kind of error has an `ErrorCode`, which says how grave it is, whether work
can go on after it and what a user can do about it; every stage that is completed
has a `Milestone`.  Both have a short text by which a log refers to them.  A log
may also hold texts that are no error code; `Classification.ofText` gives them
the classification of an unknown error.
-/
namespace DeviceSchema

/-- How grave an error is. -/
inductive Severity where
  | critical
  | high
  | medium
  | low
deriving DecidableEq, Repr

def Severity.word : Severity → String
  | critical => "Critical"
  | high => "High"
  | medium => "Medium"
  | low => "Low"

/-- The kinds of errors. -/
inductive ErrorCode where
  | internalError
  | initializationFailure
  | invalidSettings
  | fileNotFound
  | invalidExtension
  | fileTooLarge
  | emptyFile
  | permissionDenied
  | invalidEncoding
  | readFailure
  | invalidPath
  | tooManyLines
  | integerExpected
  | tokenTooLong
  | tokenAlreadyHandedBack
  | unrecognizedKeyword
  | missingToken
  | invalidExpression
  | invalidDescription
  | invalidKeywordValue
  | duplicateKeyword
  | nestingTooDeep
  | missingName
  | nameTooLong
  | invalidName
  | duplicateName
  | reservedName
  | missingType
  | unsupportedRange
  | valueOutOfRange
  | malformedValue
  | invalidDefault
  | invalidPattern
  | emptyCollection
  | countAndKeys
  | keysWithoutLength
  | invalidInstances
  | unsupportedDictionary
  | noGroups
  | undefinedCondition
  | malformedReference
  | unresolvedReference
  | unresolvedSource
  | sourceNotElement
  | noRelativePath
deriving DecidableEq, Repr

/-- What is known about a kind of error. -/
structure Classification where
  category : String
  severity : Severity
  /-- Whether work can go on after the error. -/
  recoverable : Bool
  /-- Whether the run has to stop. -/
  halts : Bool
  description : String
  /-- What a user can do. -/
  action : String
deriving DecidableEq, Repr

namespace Classification

/-- The action of an error about which nothing is known. -/
def noAction : String := "No specific action available"

/-- The classification of an error about which nothing is known. -/
def unknown : Classification :=
  ⟨"Unknown", .medium, true, false, "Unknown error", noAction⟩

/-- An error after which the run stops. -/
def halting (category : String) (severity : Severity) (description action : String) :
    Classification :=
  ⟨category, severity, false, true, description, action⟩

end Classification

namespace ErrorCode

def all : List ErrorCode :=
  [internalError, initializationFailure, invalidSettings, fileNotFound, invalidExtension,
    fileTooLarge, emptyFile, permissionDenied, invalidEncoding, readFailure, invalidPath,
    tooManyLines, integerExpected, tokenTooLong, tokenAlreadyHandedBack, unrecognizedKeyword,
    missingToken, invalidExpression, invalidDescription, invalidKeywordValue, duplicateKeyword,
    nestingTooDeep, missingName, nameTooLong, invalidName, duplicateName, reservedName,
    missingType, unsupportedRange, valueOutOfRange, malformedValue, invalidDefault,
    invalidPattern, emptyCollection, countAndKeys, keysWithoutLength, invalidInstances,
    unsupportedDictionary, noGroups, undefinedCondition, malformedReference, unresolvedReference,
    unresolvedSource, sourceNotElement, noRelativePath]

/-- The text of a code. -/
def text : ErrorCode → String
  | internalError => "ERR001"
  | initializationFailure => "ERR002"
  | invalidSettings => "ERR003"
  | fileNotFound => "E005"
  | invalidExtension => "E006"
  | fileTooLarge => "E007"
  | emptyFile => "E008"
  | permissionDenied => "E009"
  | invalidEncoding => "E010"
  | readFailure => "E011"
  | invalidPath => "E012"
  | tooManyLines => "E013"
  | integerExpected => "E020"
  | tokenTooLong => "E021"
  | tokenAlreadyHandedBack => "E022"
  | unrecognizedKeyword => "E040"
  | missingToken => "E041"
  | invalidExpression => "E042"
  | invalidDescription => "E043"
  | invalidKeywordValue => "E044"
  | duplicateKeyword => "E045"
  | nestingTooDeep => "E046"
  | missingName => "E060"
  | nameTooLong => "E061"
  | invalidName => "E062"
  | duplicateName => "E063"
  | reservedName => "E064"
  | missingType => "E080"
  | unsupportedRange => "E081"
  | valueOutOfRange => "E082"
  | malformedValue => "E083"
  | invalidDefault => "E084"
  | invalidPattern => "E085"
  | emptyCollection => "E100"
  | countAndKeys => "E101"
  | keysWithoutLength => "E102"
  | invalidInstances => "E103"
  | unsupportedDictionary => "E104"
  | noGroups => "E105"
  | undefinedCondition => "E120"
  | malformedReference => "E121"
  | unresolvedReference => "E122"
  | unresolvedSource => "E123"
  | sourceNotElement => "E124"
  | noRelativePath => "E125"

/-- The kind of error that a text refers to. -/
def ofText? (text : String) : Option ErrorCode := all.find? (·.text = text)

def classification : ErrorCode → Classification
  | internalError =>
    .halting "System" .critical "Critical internal error"
      "File a bug report with the input that triggered it"
  | initializationFailure =>
    .halting "System" .critical "Initialization failure"
      "Check logging and runtime configuration"
  | invalidSettings =>
    .halting "System" .high "Invalid runtime configuration"
      "Fix the configuration file or RCI_* environment variables"
  | fileNotFound =>
    .halting "FileProcessing" .medium "File not found at specified path"
      "Check file path and ensure file exists"
  | invalidExtension =>
    ⟨"FileProcessing", .low, true, false, "File does not have .rci extension",
      "Rename the file or disable RCI_REQUIRE_RCI_EXTENSION"⟩
  | fileTooLarge =>
    .halting "FileProcessing" .medium "File exceeds maximum size limit"
      "Split the configuration or rebuild with a larger limit"
  | emptyFile =>
    .halting "FileProcessing" .medium "File is empty"
      "Provide a configuration file with at least one group"
  | permissionDenied =>
    .halting "FileProcessing" .medium "Permission denied accessing file"
      "Check file permissions and user access rights"
  | invalidEncoding =>
    .halting "FileProcessing" .medium "File is neither UTF-8 nor accepted as ISO-8859-1"
      "Convert the file to UTF-8 or enable the Latin-1 fallback"
  | readFailure =>
    .halting "FileProcessing" .high "I/O error while reading file"
      "Check file system health and retry"
  | invalidPath =>
    .halting "FileProcessing" .medium "Path is not a regular file"
      "Pass the path of a configuration file"
  | tooManyLines =>
    .halting "FileProcessing" .medium "File exceeds maximum line count"
      "Split the configuration or rebuild with a larger limit"
  | integerExpected =>
    .halting "Lexical" .high "Integer expected"
      "Supply a decimal integer"
  | tokenTooLong =>
    .halting "Lexical" .high "Token exceeds maximum length"
      "Shorten the token"
  | tokenAlreadyHandedBack =>
    .halting "Lexical" .critical "Token pushback already occupied"
      "File a bug report with the input that triggered it"
  | unrecognizedKeyword =>
    .halting "Syntax" .high "Unrecognized keyword"
      "Use globalerror, condition or group at the top level"
  | missingToken =>
    .halting "Syntax" .high "Required token missing"
      "Complete the statement"
  | invalidExpression =>
    .halting "Syntax" .high "Invalid arithmetic expression"
      "Balance parentheses and use only integers and + - * /"
  | invalidDescription =>
    .halting "Syntax" .high "Invalid description"
      "Use a quoted Latin-1 description of at most 200 characters"
  | invalidKeywordValue =>
    .halting "Syntax" .high "Invalid keyword value"
      "Use one of the values accepted by the keyword"
  | duplicateKeyword =>
    .halting "Syntax" .high "Keyword given more than once"
      "Remove the repeated keyword"
  | nestingTooDeep =>
    .halting "Syntax" .high "List nesting too deep"
      "Flatten nested lists"
  | missingName =>
    .halting "Naming" .high "Name missing"
      "Supply a name"
  | nameTooLong =>
    .halting "Naming" .high "Name exceeds maximum length"
      "Shorten the name or raise --max-name-length"
  | invalidName =>
    .halting "Naming" .high "Name contains invalid characters"
      "Use letters, digits, '_', ':', '.', and '-'"
  | duplicateName =>
    .halting "Naming" .high "Duplicate name"
      "Rename one of the conflicting definitions"
  | reservedName =>
    .halting "Naming" .high "Reserved name"
      "Do not name items 'error' or 'warning'"
  | missingType =>
    .halting "Model" .high "Element type missing"
      "Add a type keyword to the element"
  | unsupportedRange =>
    .halting "Model" .high "min/max not supported or missing for element type"
      "Check which types accept min and max"
  | valueOutOfRange =>
    .halting "Model" .high "Value outside allowed range"
      "Adjust min, max or default"
  | malformedValue =>
    .halting "Model" .high "Malformed value"
      "Use a valid numeral for the element type"
  | invalidDefault =>
    .halting "Model" .high "Invalid default value"
      "Use a default accepted by the element type"
  | invalidPattern =>
    .halting "Model" .high "Invalid regular expression"
      "Fix the pattern or add the missing syntax keyword"
  | emptyCollection =>
    .halting "Structural" .high "Collection has no items"
      "Add at least one element or list"
  | countAndKeys =>
    .halting "Structural" .high "Count and keys both specified"
      "Use either an instance count or keys"
  | keysWithoutLength =>
    .halting "Structural" .high "Dynamic dictionary without a key length"
      "Pass --max-key-length"
  | invalidInstances =>
    .halting "Structural" .high "Invalid instance count"
      "Use a positive instance count"
  | unsupportedDictionary =>
    .halting "Structural" .high "Unsupported dictionary form"
      "Use keys {} with variable capacity"
  | noGroups =>
    .halting "Structural" .high "No groups in file"
      "Declare at least one setting or state group"
  | undefinedCondition =>
    .halting "References" .high "Condition not declared"
      "Declare the condition before attaching it"
  | malformedReference =>
    .halting "References" .high "Malformed ref_enum path"
      "Use an absolute path of value names or '*'"
  | unresolvedReference =>
    .halting "References" .high "ref_enum reference does not resolve to a dictionary"
      "Point the reference at a dictionary in a setting group"
  | unresolvedSource =>
    .halting "References" .high "Condition source path does not resolve"
      "Fix the condition source path"
  | sourceNotElement =>
    .halting "References" .high "Condition source is not an element"
      "Point the condition source at an element"
  | noRelativePath =>
    .halting "References" .high "Relative path cannot be computed"
      "Attach conditions only to nodes in the same table as their source"

def category (code : ErrorCode) : String := code.classification.category

def severity (code : ErrorCode) : Severity := code.classification.severity

end ErrorCode

/-- The classification of the error that a text refers to. -/
def Classification.ofText (text : String) : Classification :=
  ((ErrorCode.ofText? text).map ErrorCode.classification).getD .unknown

/-- The stages whose completion a log tells. -/
inductive Milestone where
  | processed
  | logReady
  | fileRead
  | tokensReady
  | parsed
  | groupAdded
  | conditionAdded
  | referencesResolved
  | conditionsResolved
  | crossReferenced
deriving DecidableEq, Repr

/-- The text of a milestone. -/
def Milestone.text : Milestone → String
  | processed => "I001"
  | logReady => "I004"
  | fileRead => "I006"
  | tokensReady => "I020"
  | parsed => "I040"
  | groupAdded => "I041"
  | conditionAdded => "I042"
  | referencesResolved => "I060"
  | conditionsResolved => "I061"
  | crossReferenced => "I080"

end DeviceSchema
