import DeviceSchema.Text.PatternCompiler
import DeviceSchema.Tree.Address
import DeviceSchema.Tree.Bounds
import DeviceSchema.Tree.Info

/-! # Elements

An **element** is a leaf of the tree: a typed value with optional bounds, default,
units and pattern.  The members of an enumeration hang off their element; a
`ref_enum` also has references to dictionaries whose keys it takes as members.

Clauses are declared one at a time, each at most once, and `check` decides what
follows from the element alone once all clauses are known.
-/
namespace DeviceSchema

/-- A pattern that a value has to match. -/
structure PatternRule where
  pattern : Option String := none
  caseRule : Option CaseRule := none
  /-- The pattern in words. -/
  wording : Option String := none
deriving DecidableEq, Repr

namespace PatternRule

/-- Whether nothing is declared. -/
def isEmpty (rule : PatternRule) : Bool :=
  rule.pattern.isNone && rule.caseRule.isNone && rule.wording.isNone

/-- A pattern needs its wording and the other way round. -/
def check (rule : PatternRule) : Except Defect Unit :=
  if rule.isEmpty || (rule.pattern.isSome && rule.wording.isSome) then .ok ()
  else .error .incompletePattern

end PatternRule

/-- A typed value. -/
structure Element where
  info : Info
  type : Option ValueType := none
  min : Option String := none
  max : Option String := none
  default : Option String := none
  units : Option String := none
  rule : PatternRule := {}
  /-- The members of an enumeration. -/
  values : List Info := []
  /-- The paths of the dictionaries whose keys are members too. -/
  references : List Info := []
deriving DecidableEq, Repr

namespace Element

def name (e : Element) : String := e.info.name

section Clauses

/-- Declares the type; the first declaration stands. -/
def declareType (text : String) : Changing Element Unit := do
  if (← get).type.isSome then throw (.repeatedClause .type text)
  let type ← ofExcept (ValueType.ofText text)
  modify fun e => { e with type := some type }

/-- Declares what `slot` holds; the first declaration stands. -/
def declareOnce (clause : Clause) (slot : Element → Option String)
    (fill : String → Element → Element) (value : String) : Changing Element Unit := do
  if (slot (← get)).isSome then throw (.repeatedClause clause value)
  modify (fill value)

def declareMin : String → Changing Element Unit :=
  declareOnce .min Element.min fun value e => { e with min := some value }

def declareMax : String → Changing Element Unit :=
  declareOnce .max Element.max fun value e => { e with max := some value }

def declareDefault : String → Changing Element Unit :=
  declareOnce .default Element.default fun value e => { e with default := some value }

def declareUnits : String → Changing Element Unit :=
  declareOnce .units Element.units fun value e => { e with units := some value }

/-- Declares the pattern, which has to compile; the last declaration stands. -/
def declarePattern [PatternCompiler] (pattern : String) : Changing Element Unit := do
  ofExcept ((PatternCompiler.compile pattern).mapError .malformedPattern)
  modify fun e => { e with rule := { e.rule with pattern := some pattern } }

/-- Declares the case rule; the last declaration stands. -/
def declareCase (e : Element) (caseRule : CaseRule) : Element :=
  { e with rule := { e.rule with caseRule := some caseRule } }

/-- Declares the wording of the pattern; the last declaration stands. -/
def declareWording (e : Element) (wording : String) : Element :=
  { e with rule := { e.rule with wording := some wording } }

/-- The type of an element that may have members. -/
def memberType (e : Element) : Except Defect ValueType :=
  match e.type with
  | none => .error (.memberWithoutType e.name)
  | some .enum => .ok .enum
  | some .refEnum => .ok .refEnum
  | some type => .error (.memberNotAllowed type)

/-- Adds a member, whose name must be new. -/
def addValue (value : Info) : Changing Element Unit := do
  let _ ← ofExcept (← get).memberType
  if (← get).values.any (·.name = value.name) then throw (.repeatedMember value.name)
  modify fun e => { e with values := e.values ++ [value] }

/-- Adds a reference, whose path must be new. -/
def addReference (reference : Info) : Changing Element Unit := do
  let type ← ofExcept (← get).memberType
  if type ≠ .refEnum then throw (.memberNotAllowed type)
  if (← get).references.any (·.name = reference.name) then
    throw (.repeatedMember reference.name)
  modify fun e => { e with references := e.references ++ [reference] }

/-- Sets the bounds of the length of a `ref_enum`, which follow from what its
references lead to. -/
def withRange (e : Element) (min max : Nat) : Element :=
  { e with min := some (toString min), max := some (toString max) }

end Clauses

section Check

/-- The position of the member called `name`. -/
def memberIndex? (e : Element) (name : String) : Option Nat :=
  e.values.findIdx? (·.name = name)

/-- Bounds are declared only for types that have them. -/
def checkBoundsAllowed (e : Element) (type : ValueType) : Except Defect Unit :=
  if type.hasBounds then .ok ()
  else if e.min.isSome then .error (.boundNotSupported .min)
  else if e.max.isSome then .error (.boundNotSupported .max)
  else .ok ()

/-- The length of a text that can be written is bounded. -/
def checkMaxGiven (e : Element) (type : ValueType) : Except Defect Unit :=
  if type.needsMax && e.info.access ≠ some .readOnly && e.max.isNone then .error .maxRequired
  else .ok ()

/-- The default satisfies `test`, if there is one. -/
def checkDefault (e : Element) (test : String → Bool) (defect : Defect) : Except Defect Unit :=
  match e.default with
  | some value => if test value then .ok () else .error defect
  | none => .ok ()

/-- An enumeration has members, and its default is one. -/
def checkEnum (e : Element) : Except Defect Unit :=
  if e.values.isEmpty then .error .noEnumMembers
  else e.checkDefault (fun d => (e.memberIndex? d).isSome) .defaultNotMember

/-- Whether a text begins with the path of a reference. -/
def beginsWithReference (e : Element) (text : String) : Bool :=
  e.references.any fun r => r.name.toList.isPrefixOf text.toList

/-- A `ref_enum` has members or references, and its default is a member or begins
with a reference. -/
def checkRefEnum (e : Element) : Except Defect Unit :=
  if e.values.isEmpty && e.references.isEmpty then .error .noRefEnumMembers
  else
    e.checkDefault (fun d => (e.memberIndex? d).isSome || e.beginsWithReference d)
      .defaultNotMember

/-- The bounds are reals in order with the default between them. -/
def checkRealRange (e : Element) : Except Defect Unit := do
  let min ← boundOr (-Text.Real.greatest) (realOf .min) e.min
  let max ← boundOr Text.Real.greatest (realOf .max) e.max
  if max < min then .error .minAboveMax
  else match e.default with
    | none => .ok ()
    | some text => do
      let value ← realOf .default text
      checkBetween min max value

/-- The default of a bounded type that is no real: the bounds hold for the length
of a text and for the value of an integer; a domain name only has to be one. -/
def checkBoundedDefault (type : ValueType) (range : IntegerRange) (min max : Int)
    (text : String) : Except Defect Unit :=
  if type.isText then checkBetween min max text.length
  else if type.isDomainName then
    if Address.isDomainName text then .ok () else .error .malformedDomainName
  else do
    let value ← integerIn range .default text
    checkBetween min max value

/-- The bounds are integers of the type's range in order, and the default suits
them. -/
def checkIntegerRange (e : Element) (type : ValueType) (range : IntegerRange) :
    Except Defect Unit := do
  let min ← boundOr range.low (integerIn range .min) e.min
  let max ← boundOr range.high (integerIn range .max) e.max
  if max < min then .error .minAboveMax
  else match e.default with
    | none => .ok ()
    | some text => checkBoundedDefault type range min max text

/-- The rule of each type. -/
def checkValue (e : Element) : ValueType → Except Defect Unit
  | .enum => e.checkEnum
  | .refEnum => e.checkRefEnum
  | .onOff => e.checkDefault (["on", "off"].contains ·) (.malformedDefault .onOff)
  | .boolean => e.checkDefault (["true", "false"].contains ·) (.malformedDefault .boolean)
  | .ipv4 => e.checkDefault Address.isIpv4 .malformedIpv4
  | .list => e.checkDefault (fun _ => false) .defaultOfList
  | .macAddress => e.checkDefault (fun _ => false) (.defaultNotSupported .macAddress)
  | .datetime => e.checkDefault (fun _ => false) (.defaultNotSupported .datetime)
  | .float => e.checkRealRange
  | .int32 => e.checkIntegerRange .int32 .signed32
  | type => e.checkIntegerRange type .unsigned32

/-- Everything that can be decided from the element alone. -/
def check (e : Element) : Except Defect Unit :=
  match e.type with
  | none => .error .missingType
  | some type => do
    e.checkBoundsAllowed type
    e.checkMaxGiven type
    e.rule.check
    e.checkValue type

end Check

/-- The default as an initializer of generated code. -/
def initializer? (e : Element) : Option String := do
  let value ← e.default
  let type ← e.type
  match type with
  | .string | .multilineString | .password | .ipv4 | .fqdnv4 | .fqdnv6 | .macAddress
  | .datetime | .refEnum => some ("\"" ++ value ++ "\"")
  | .int32 | .uint32 | .hex32 | .prefixedHex32 | .float => some value
  | .enum => (e.memberIndex? value).map toString
  | .onOff | .boolean => some ("connector_" ++ value)
  | .list => none

end Element
end DeviceSchema
