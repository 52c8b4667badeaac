import DeviceSchema.Journal.Code
import DeviceSchema.Tree.Keyword

/-! # Defects of a tree

A **defect** is why a part of a description cannot be taken into the tree of
configuration items: a rule that the part breaks by itself or together with what
the tree already holds.  `message` has the words for a user and `code` the kind
of error.

The tree is changed in place.  A **change** that meets a defect ends there, and what it
has changed until then stays changed, so whoever goes on with the value sees it.
-/
namespace DeviceSchema

/-- The value that a defect of a range is about. -/
inductive Bound where
  | min
  | max
  | default
deriving DecidableEq, Repr

def Bound.word : Bound → String
  | min => "min"
  | max => "max"
  | default => "default"

/-- The clauses that an element may have only once. -/
inductive Clause where
  | type
  | min
  | max
  | default
  | units
deriving DecidableEq, Repr

def Clause.word : Clause → String
  | type => "type"
  | min => "min"
  | max => "max"
  | default => "default"
  | units => "units"

/-- Why a part cannot be taken into the tree. -/
inductive Defect where
  -- items
  | missingDescription
  | reservedName (name : String)
  | unknownAccess (text : String)
  | repeatedAccess (access : Access)
  | unknownCondition (name : String)
  | repeatedCondition (name : String)
  -- paths and conditions
  | unknownTable (text : String)
  | differentTables
  | samePlace
  | unknownOperation (text : String)
  | unknownCaseRule (text : String)
  -- elements
  | unknownType (text : String)
  | repeatedClause (clause : Clause) (value : String)
  | memberWithoutType (element : String)
  | memberNotAllowed (type : ValueType)
  | repeatedMember (name : String)
  | malformedPattern (reason : String)
  | missingType
  | boundNotSupported (bound : Bound)
  | maxRequired
  | incompletePattern
  | noEnumMembers
  | noRefEnumMembers
  | defaultNotMember
  | malformedDefault (type : ValueType)
  | malformedIpv4
  | malformedDomainName
  | defaultOfList
  | defaultNotSupported (type : ValueType)
  | malformedValue (bound : Bound)
  | belowMinimum (bound : Bound)
  | aboveMaximum (bound : Bound)
  | minAboveMax
  | defaultOutOfRange
  -- collections
  | invalidInstances (name : String)
  | repeatedItem (name : String)
  | countAndKeys
  | fixedDictionary
  | keysNotEnabled
  | noItems
  | repeatedError (name : String)
  | missingErrorDescription
  -- registries
  | missingGlobalErrorDescription
  | protocolErrorName (name : String)
  | repeatedGlobalError (name : String)
  | repeatedGroup (name : String)
  | repeatedConditionName (name : String)
deriving DecidableEq, Repr

namespace Defect

def message : Defect → String
  | missingDescription => "Missing or bad description"
  | reservedName name => "Invalid name: " ++ name
  | unknownAccess text => "Invalid access Type: " ++ text
  | repeatedAccess access => "Duplicate <access> keyword: " ++ access.word
  | unknownCondition name => "Condition not found: " ++ name
  | repeatedCondition name => "Duplicate <condition> keyword: " ++ name
  | unknownTable text => "Invalid group Type: " ++ text
  | differentTables => "Unable to make relative path: setting/state mismatch"
  | samePlace => "Unable to make relative path: common object"
  | unknownOperation text => "Invalid <condition> operation: " ++ text
  | unknownCaseRule text => "Invalid condition Type: " ++ text
  | unknownType text => "Invalid element Type: " ++ text
  | repeatedClause clause value => "Duplicate <" ++ clause.word ++ "> keyword: " ++ value
  | memberWithoutType element => "Missing type of enum or ref_enum on element: " ++ element
  | memberNotAllowed type => "Invalid <value> for type: " ++ type.word
  | repeatedMember name => "Duplicate <value>: " ++ name
  | malformedPattern reason => "Invalid regex pattern: " ++ reason
  | missingType => "Missing <type>"
  | boundNotSupported bound => bound.word ++ " is not supported"
  | maxRequired => "max is required"
  | incompletePattern => "Regular expressions require both a 'pattern' and a 'syntax' keyword"
  | noEnumMembers => "No values found for enum type"
  | noRefEnumMembers => "No values or references found for ref_enum type"
  | defaultNotMember => "default enumeration value not found"
  | malformedDefault type => "Bad default " ++ type.word ++ " value"
  | malformedIpv4 => "invalid IPv4 address"
  | malformedDomainName => "invalid FQDN address"
  | defaultOfList => "Default value is invalid for <list>"
  | defaultNotSupported type => "Default value is unsupported for " ++ type.word
  | malformedValue bound => bound.word ++ " value invalid"
  | belowMinimum bound => bound.word ++ " value is below protocol minimum"
  | aboveMaximum bound => bound.word ++ " value is above protocol maximum"
  | minAboveMax => "min value > max value"
  | defaultOutOfRange => "default value is out of range"
  | invalidInstances name => "Invalid instance count for: " ++ name
  | repeatedItem name => "Duplicate name: " ++ name
  | countAndKeys => "Count and keys both specified"
  | fixedDictionary => "fixed dictionaries are not supported"
  | keysNotEnabled =>
    "max key length must be specified on the command line when using dynamic dictionaries"
  | noItems => "No items specified"
  | repeatedError name => "Duplicate <error>: " ++ name
  | missingErrorDescription => "Missing or bad error description"
  | missingGlobalErrorDescription => "Missing or bad globalerror description"
  | protocolErrorName name => "Existing protocol error <globalerror>: " ++ name
  | repeatedGlobalError name => "Duplicate <globalerror>: " ++ name
  | repeatedGroup name => "Duplicate <group> name: " ++ name
  | repeatedConditionName name => "Duplicate <condition> name: " ++ name

def code : Defect → ErrorCode
  | missingDescription | missingErrorDescription | missingGlobalErrorDescription =>
    .invalidDescription
  | reservedName _ => .reservedName
  | unknownAccess _ | unknownTable _ | unknownOperation _ | unknownCaseRule _ | unknownType _ =>
    .invalidKeywordValue
  | repeatedAccess _ | repeatedClause _ _ | repeatedCondition _ => .duplicateKeyword
  | unknownCondition _ => .undefinedCondition
  | differentTables | samePlace => .noRelativePath
  | memberWithoutType _ | missingType => .missingType
  | memberNotAllowed _ | malformedValue _ => .malformedValue
  | repeatedMember _ | repeatedItem _ | repeatedError _ | protocolErrorName _
  | repeatedGlobalError _ | repeatedGroup _ | repeatedConditionName _ => .duplicateName
  | malformedPattern _ | incompletePattern => .invalidPattern
  | boundNotSupported _ | maxRequired => .unsupportedRange
  | noEnumMembers | noRefEnumMembers | noItems => .emptyCollection
  | defaultNotMember | malformedDefault _ | malformedIpv4 | malformedDomainName | defaultOfList
  | defaultNotSupported _ => .invalidDefault
  | belowMinimum _ | aboveMaximum _ | minAboveMax | defaultOutOfRange => .valueOutOfRange
  | invalidInstances _ => .invalidInstances
  | countAndKeys => .countAndKeys
  | fixedDictionary => .unsupportedDictionary
  | keysNotEnabled => .keysWithoutLength

end Defect

section Keywords

/-! A text that has to be a keyword but is none is a defect. -/

def Access.ofText (text : String) : Except Defect Access :=
  (ofWord? text).elim (.error (.unknownAccess text)) .ok

def TableKind.ofText (text : String) : Except Defect TableKind :=
  (ofWord? text).elim (.error (.unknownTable text)) .ok

def ValueType.ofText (text : String) : Except Defect ValueType :=
  (ofWord? text).elim (.error (.unknownType text)) .ok

def Operation.ofText (text : String) : Except Defect Operation :=
  (ofWord? text).elim (.error (.unknownOperation text)) .ok

def CaseRule.ofText (text : String) : Except Defect CaseRule :=
  (ofWord? text).elim (.error (.unknownCaseRule text)) .ok

end Keywords

section Changes
variable {σ τ : Type}

/-- A step of a change of a value in place, which a defect ends. -/
abbrev Changing (σ : Type) := EStateM Defect σ

namespace Changing

/-- The change of a part as a change of the whole. -/
def within (part : σ → τ) (put : τ → σ → σ) (change : Changing τ Unit) : Changing σ Unit :=
  fun s =>
    match change (part s) with
    | .ok _ t => .ok () (put t s)
    | .error defect t => .error defect (put t s)

end Changing

/-- The value behind a change, for those who give up a value that has met a defect. -/
def changed : EStateM.Result Defect σ Unit → Except Defect σ
  | .ok _ s => .ok s
  | .error defect _ => .error defect

end Changes
end DeviceSchema
