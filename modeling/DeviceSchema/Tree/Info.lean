import DeviceSchema.Tree.Condition

/-! # What every item says of itself

Groups, lists, elements and the members of enumerations have a name, a
description and perhaps a help text; nodes of the tree may also have an access
and an attached condition.  Access and condition are set once.
-/
namespace DeviceSchema

/-- A condition bound to a node, with the reference from the node to the source
of the condition. -/
structure Attachment where
  name : String
  reference : String
  predicate : Predicate
deriving DecidableEq, Repr

/-- What an item says of itself. -/
structure Info where
  name : String
  description : String
  help : Option String
  access : Option Access := none
  condition : Option Attachment := none
deriving DecidableEq, Repr

namespace Info

/-- The names that the device protocol keeps for itself. -/
def reservedNames : List String := ["error", "warning"]

/-- Whether a name is kept by the protocol, in any ASCII case. -/
def isReserved (name : String) : Bool := reservedNames.contains name.toLower

/-- An item whose description may be missing. -/
def ofMember (name : String) (description help : Option String) : Except Defect Info :=
  if isReserved name then .error (.reservedName name)
  else .ok { name, description := description.getD "", help }

/-- An item that has to be described. -/
def ofItem (name : String) (description help : Option String) : Except Defect Info :=
  match description with
  | none => .error .missingDescription
  | some _ => ofMember name description help

/-- The description that the device publishes: the help text follows a colon. -/
def published (info : Info) : String :=
  match info.help with
  | some help => info.description ++ ":" ++ help
  | none => info.description

/-- A character of a name as it stands in an identifier. -/
def identifierPart (c : Char) : List Char :=
  if c = '-' then ['_']
  else if c = '.' then "_fullstop_".toList
  else [c]

/-- The name as an identifier of generated code. -/
def identifier (info : Info) : String :=
  String.ofList (info.name.toList.flatMap identifierPart)

/-- Declares the access, which must not be known yet. -/
def declareAccess (access : Access) : Changing Info Unit := do
  if (← get).access.isSome then throw (.repeatedAccess access)
  modify fun info => { info with access := some access }

/-- Takes over an access where none is known. -/
def inheritAccess (info : Info) (access : Access) : Info :=
  { info with access := some (info.access.getD access) }

/-- Attaches a condition to the node at `here`. -/
def attach (condition : Condition) (here : Path) : Changing Info Unit := do
  if (← get).condition.isSome then throw (.repeatedCondition condition.name)
  let reference ← ofExcept (condition.source.relativeTo here)
  modify fun info => { info with
    condition := some ⟨condition.name, reference, condition.predicate⟩ }

end Info
end DeviceSchema
