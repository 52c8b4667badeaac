import DeviceSchema.Json
import DeviceSchema.Text.Numeral
import DeviceSchema.Tree.Session

/-! # References of `ref_enum` elements

A reference is an absolute path into the setting table that leads to a dictionary,
whose keys become members of the element.  After the name of a group its steps
alternate: an entry of the collection reached so far, and the name of a list in
it.  An entry of an array is a number within its instances; an entry of a
dictionary may be any key.

The keys that users will add are not known, only their greatest length.  So what
a `ref_enum` gets from its references is the range of the **lengths** of its
members.
-/
namespace DeviceSchema.CrossReference

/-- Why the parts of a session do not fit together. -/
inductive Fault where
  | unresolvedReference (path : String)
  | sourceNotElement (condition : String)
  | unresolvedSource (condition : String)
  | missingRefEnum (path : Path)
deriving DecidableEq, Repr

namespace Fault

def message : Fault → String
  | unresolvedReference path => "ref_enum has invalid reference: " ++ path
  | sourceNotElement condition =>
    "conditional source path does not end at an element: " ++ condition
  | unresolvedSource condition => "conditional source path is invalid: " ++ condition
  | missingRefEnum path => "ref_enum element not found: " ++ path.render

def code : Fault → ErrorCode
  | unresolvedReference _ => .unresolvedReference
  | sourceNotElement _ => .sourceNotElement
  | unresolvedSource _ => .unresolvedSource
  | missingRefEnum _ => .internalError

end Fault

section Resolving

/-- Whether a step is an entry of a collection. -/
def isEntry (c : Collection) (step : String) : Bool :=
  match c.head.instances with
  | none => true
  | some count =>
    match Text.word? 32 step.toList with
    | some index => 1 ≤ index && index ≤ count
    | none => false

/-- Whether the steps after a collection lead to a dictionary. -/
def leadsToDictionary : List String → Collection → Bool
  | [], c => c.head.isDictionary
  | [_], _ => false
  | entry :: child :: rest, c =>
    isEntry c entry &&
      match (c.find? child).bind Item.collection? with
      | some next => leadsToDictionary rest next
      | none => false

/-- The steps of a reference. -/
def stepsOf (reference : String) : List String :=
  ((Path.withoutSlash reference.toList).splitOn '/').map String.ofList

/-- Whether a reference leads to a dictionary of the setting table. -/
def resolves (session : Session) (reference : String) : Bool :=
  match stepsOf reference with
  | [] => false
  | group :: steps =>
    match session.setting.group? group with
    | some g => leadsToDictionary steps g.body
    | none => false

end Resolving

section Ranges

/-- The range of the lengths of the members of a `ref_enum`. -/
structure LengthRange where
  path : Path
  min : Nat
  max : Nat
deriving DecidableEq, Repr

def LengthRange.toJson (range : LengthRange) : Json :=
  .list [.text range.path.render, .count range.min, .count range.max]

/-- The length of a path with a key of `keyLength` characters behind it.  Lengths are
machine words, so a sum that is too great for one wraps around. -/
def lengthWithKey (keyLength : UInt64) (path : String) : Nat :=
  (path.length.toUInt64 + keyLength).toNat

/-- The lengths that members of an element can have: those of its values, and for
each reference the length of its path with the longest key. -/
def memberLengths (keyLength : UInt64) (e : Element) : List Nat :=
  e.values.map (·.name.length) ++ e.references.map (lengthWithKey keyLength ·.name)

/-- The range of the member lengths of the element at `path`, whose references all
have to resolve. -/
def rangeOf (session : Session) (path : Path) (e : Element) : Except Fault LengthRange :=
  match e.references.find? fun r => !resolves session r.name with
  | some reference => .error (.unresolvedReference reference.name)
  | none =>
    let lengths := memberLengths session.limits.keyLength e
    .ok ⟨path, lengths.min?.getD 0, lengths.max?.getD 0⟩

/-- The range of the `ref_enum` element at `path`. -/
def rangeAt (session : Session) (path : Path) : Except Fault LengthRange :=
  match (session.resolve path).bind Node.element? with
  | some e => rangeOf session path e
  | none => .error (.missingRefEnum path)

/-- The ranges of all `ref_enum` elements. -/
def ranges (session : Session) : Except Fault (List LengthRange) :=
  session.refEnums.mapM (rangeAt session)

/-- Stores a range as the bounds of its element. -/
def store (session : Session) (range : LengthRange) : Except Fault Session :=
  let table := session.table range.path.table
  match table.updateElement? range.path.names (·.withRange range.min range.max) with
  | some table => .ok (session.withTable range.path.table table)
  | none => .error (.missingRefEnum range.path)

/-- Stores ranges one after another, up to the first that has no element. -/
def storeAll : Session → List LengthRange → Except Fault Unit × Session
  | session, [] => (.ok (), session)
  | session, range :: rest =>
    match store session range with
    | .ok session => storeAll session rest
    | .error fault => (.error fault, session)

end Ranges
end DeviceSchema.CrossReference
