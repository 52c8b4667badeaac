import DeviceSchema.Arithmetic
import DeviceSchema.Token.Stream
import DeviceSchema.Tree.Defect

/-! # Failures of statements

A description fails at its first wrong statement.  A **failure** has a cause and
the line to look at.  A failure that concerns a construct as a whole names the
construct, its line is the one on which the construct was opened, and it carries
the construct's name if that was read; every other failure has the line that the
reader had reached.
-/
namespace DeviceSchema.Statement

/-- The constructs that failures are attributed to. -/
inductive Construct where
  | group
  | element
  | condition
  | list
deriving DecidableEq, Repr

def Construct.word : Construct → String
  | group => "group"
  | element => "element"
  | condition => "condition"
  | list => "list"

/-- The kinds of quoted descriptions. -/
inductive Wording where
  | label
  | help
  | error
deriving DecidableEq, Repr

def Wording.word : Wording → String
  | label => "label"
  | help => "help"
  | error => "error"

/-- The parts of a statement that may be missing. -/
inductive Part where
  | access
  | type
  | bound
  | default
  | caseValue
  | units
  | pattern
  | patternWording
  | source
  | value
deriving DecidableEq, Repr

/-- Why a statement fails. -/
inductive Cause where
  | token (fault : Token.Fault)
  | arithmetic (failure : Arithmetic.Failure)
  | defect (defect : Defect)
  | unknownKeyword (keyword : String)
  | unknownInList (token : String)
  | unknownCapacity (construct : Construct) (text : String)
  | keysNotSupported (construct : Construct)
  | missing (part : Part)
  | missingInCondition (part : Part)
  -- names
  | missingName
  | nameTooLong (most : Nat)
  | malformedName (name : String)
  | memberNameTooLong (most : Nat)
  | malformedMemberName (name : String)
  | referenceNotRooted (path : String)
  | referenceEndsWithSlash (path : String)
  | malformedReferenceStep (step : String)
  -- descriptions
  | unclosedDescription (wording : Wording)
  | notLatin1 (wording : Wording)
  | labelTooLong (most : Nat)
  | unknownCaseValue
  | listTooDeep (most : Nat)
deriving DecidableEq, Repr

/-- The message about a missing part of an element. -/
def Part.missingMessage : Part → String
  | access => "Missing access"
  | type => "Missing type"
  | bound => "Missing min or max value"
  | default => "Missing default"
  | caseValue => "Missing case value"
  | units => "Missing or bad units"
  | pattern => "Missing or bad regex pattern"
  | patternWording => "Missing or bad regex syntax"
  | source => "Missing source"
  | value => "Missing value"

/-- The word for a part of a condition. -/
def Part.conditionWord : Part → String
  | source => "source"
  | pattern => "pattern"
  | value => "value"
  | part => part.missingMessage

namespace Cause

def message : Cause → String
  | token f => f.message
  | arithmetic f => f.message
  | defect d => d.message
  | unknownKeyword keyword => "Unrecognized keyword: " ++ keyword
  | unknownInList text => "unknown token in <list>: " ++ text
  | unknownCapacity construct text =>
    "Error in <" ++ construct.word ++ ">: Invalid capacity type of " ++ text
  | keysNotSupported construct =>
    "Error in <" ++ construct.word ++ ">: Key parser is unimplemented"
  | missing part => part.missingMessage
  | missingInCondition part => "Missing " ++ part.conditionWord ++ " in <condition>"
  | missingName => "Missing name!"
  | nameTooLong most => "The name > the maximum length limited " ++ toString most
  | malformedName name => "Invalid character in name: " ++ name
  | memberNameTooLong most => "The name is larger than the maximum length of " ++ toString most
  | malformedMemberName name => "Invalid character in value name: " ++ name
  | referenceNotRooted path => "ref_enum path must start at root: " ++ path
  | referenceEndsWithSlash path => "ref_enum path must not end with '/': " ++ path
  | malformedReferenceStep step => "Invalid character in ref_enum path: '" ++ step ++ "'"
  | unclosedDescription wording => "Invalid " ++ wording.word ++ " description"
  | notLatin1 wording => "Non-Latin-1 character in " ++ wording.word ++ " description"
  | labelTooLong most => "description > maximum length " ++ toString most
  | unknownCaseValue => "Invalid case value: must be 'ignore' or 'match'"
  | listTooDeep most => "list nesting deeper than " ++ toString most ++ " levels"

end Cause

/-- The kind of error that a fault of the token stream is. -/
def faultCode : Token.Fault → ErrorCode
  | .notAnInteger _ _ => .integerExpected
  | .tokenTooLong _ _ _ => .tokenTooLong
  | .alreadyHandedBack _ => .tokenAlreadyHandedBack

def Cause.code : Cause → ErrorCode
  | token f => faultCode f
  | arithmetic _ => .invalidExpression
  | defect d => d.code
  | unknownKeyword _ | unknownInList _ => .unrecognizedKeyword
  | unknownCapacity _ _ | keysNotSupported _ | unknownCaseValue => .invalidKeywordValue
  | missing _ | missingInCondition _ => .missingToken
  | missingName => .missingName
  | nameTooLong _ | memberNameTooLong _ => .nameTooLong
  | malformedName _ | malformedMemberName _ => .invalidName
  | referenceNotRooted _ | referenceEndsWithSlash _ | malformedReferenceStep _ =>
    .malformedReference
  | unclosedDescription _ | notLatin1 _ | labelTooLong _ => .invalidDescription
  | listTooDeep _ => .nestingTooDeep

/-- Why and where a description fails. -/
structure Failure where
  cause : Cause
  line : Nat
  construct : Option Construct := none
  name : Option String := none
deriving DecidableEq, Repr

namespace Failure

def code (f : Failure) : ErrorCode := f.cause.code

/-- The message, headed by the construct where its name is known. -/
def message (f : Failure) : String :=
  match f.construct, f.name with
  | some construct, some name =>
    "Error in <" ++ construct.word ++ ">: " ++ name ++ "\n\t" ++ f.cause.message
  | _, _ => f.cause.message

end Failure
end DeviceSchema.Statement
