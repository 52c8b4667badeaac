import DeviceSchema.Statement.Reading

/-! # Elements and conditions in the source

    element NAME "label" ["help"] clause*
    condition NAME clause*

The clauses may come in any order, with comments between them.  They end at the
first token that begins none, which is handed back to whoever reads on.  A loop
over clauses takes a bound on their number; every clause has a keyword, so the
characters that were unread at the start are a bound that no loop reaches.
-/
namespace DeviceSchema.Statement

section Element

/-- The clauses of an element. -/
inductive ElementClause where
  | type
  | access
  | min
  | max
  | default
  | units
  | pattern
  | caseRule
  | wording
  | value
  | reference
  | condition
deriving DecidableEq, Repr

/-- The keywords of the clauses of an element. -/
def elementKeywords : List (String × ElementClause) :=
  [("type", .type), ("access", .access), ("min", .min), ("max", .max), ("default", .default),
    ("units", .units), ("pattern", .pattern), ("case", .caseRule), ("syntax", .wording),
    ("value", .value), ("ref", .reference), ("condition", .condition)]

namespace Reading
variable [PatternCompiler]

/-- `type WORD` -/
def typeClause (opened : Nat) (e : Element) : Reading Element := do
  let some token ← token? | failAt opened (.missing .type)
  let e ← changing (e.declareType token.text)
  if let some type := e.type then note (·.noteType type)
  return e

/-- `value NAME ["label" ["help"]]` -/
def valueClause (e : Element) : Reading Element := do
  let type ← taking e.memberType
  let name ← if type = .enum then memberName else text .missingName
  note (·.noteMemberName name.length)
  let label ← label?
  let help ← help?
  let value ← taking (Info.ofMember name label help)
  changing (e.addValue value)

/-- `ref PATH ["label" ["help"]]` -/
def referenceClause (e : Element) : Reading Element := do
  let path ← referencePath
  note (·.noteMemberName path.length)
  let label ← label?
  let help ← help?
  let reference ← taking (Info.ofMember path label help)
  changing (e.addReference reference)

/-- Reads the rest of a clause, after its keyword, into the element at `here`. -/
def elementClause (opened : Nat) (here : Path) (e : Element) : ElementClause → Reading Element
  | .type => typeClause opened e
  | .access => do
    let access ← access
    let info ← changing (e.info.declareAccess access)
    return { e with info }
  | .min => do changing (e.declareMin (← bound))
  | .max => do changing (e.declareMax (← bound))
  | .default => do changing (e.declareDefault (← text (.missing .default)))
  | .units => do changing (e.declareUnits (← text (.missing .units)))
  | .pattern => do changing (e.declarePattern (← text (.missing .pattern)))
  | .caseRule => do return e.declareCase (← caseRule)
  | .wording => do return e.declareWording (← text (.missing .patternWording))
  | .value => valueClause e
  | .reference => referenceClause e
  | .condition => do
    let info ← attachment e.info here
    return { e with info }

/-- Reads at most `bound` clauses. -/
def elementClauses (opened : Nat) (here : Path) : Nat → Element → Reading Element
  | 0, e => return e
  | bound + 1, e => do
    let some token ← token? | return e
    match Lead.ofToken elementKeywords token with
    | .clause kind => do
      let e ← elementClause opened here e kind
      elementClauses opened here bound e
    | .comment => do
      dropLine
      elementClauses opened here bound e
    | .other => do
      handBack token
      return e

/-- Reads an element after its keyword.  It takes over `access` if it declares
none. -/
def element (bound : Nat) (access : Access) (parent : Path) : Reading Element := do
  let opened ← line
  let name ← name
  let here := parent.child name
  let label ← label?
  let help ← help?
  let info ← taking (Info.ofItem name label help)
  note (·.noteElementName name.length)
  let e ← elementClauses opened here bound { info }
  let e := { e with info := e.info.inheritAccess access }
  closing .element name opened e.check
  if e.type = some .refEnum then onSession (·.noteRefEnum here)
  tell ((Event.ofDebug "Element parsed").details
    [("element", name), ("type", (e.type.map ValueType.word).getD ""),
      ("line", toString opened)])
  return e

end Reading
end Element

section Condition

/-- The clauses of a condition. -/
inductive ConditionClause where
  | source
  | operation
  | pattern
  | caseRule
  | value
deriving DecidableEq, Repr

/-- The keywords of the clauses of a condition. -/
def conditionKeywords : List (String × ConditionClause) :=
  [("source", .source), ("operation", .operation), ("pattern", .pattern), ("case", .caseRule),
    ("value", .value)]

/-- What has been declared of a condition.  The last clause of a kind stands. -/
structure ConditionDraft where
  source : Option String := none
  operation : Operation := .equals
  pattern : Option String := none
  caseRule : CaseRule := .heed
  value : Option String := none

namespace Reading

/-- Reads the rest of a clause, after its keyword. -/
def conditionClause (d : ConditionDraft) : ConditionClause → Reading ConditionDraft
  | .source => do return { d with source := ← text? }
  | .operation => do
    let operation ← taking (Operation.ofText ((← text?).getD ""))
    return { d with operation }
  | .pattern => do return { d with pattern := ← text? }
  | .caseRule => do
    let caseRule ← taking (CaseRule.ofText ((← text?).getD ""))
    return { d with caseRule }
  | .value => do return { d with value := ← text? }

/-- Reads at most `bound` clauses. -/
def conditionClauses : Nat → ConditionDraft → Reading ConditionDraft
  | 0, d => return d
  | bound + 1, d => do
    let some token ← token? | return d
    match Lead.ofToken conditionKeywords token with
    | .clause kind => do
      let d ← conditionClause d kind
      conditionClauses bound d
    | .comment => do
      dropLine
      conditionClauses bound d
    | .other => do
      handBack token
      return d

/-- A part that the condition needs. -/
def required (opened : Nat) (part : Part) : Option String → Reading String
  | some text => return text
  | none => failWithin .condition opened (.missingInCondition part)

/-- The test of a condition. -/
def predicate (opened : Nat) (d : ConditionDraft) : Reading Predicate :=
  match d.operation with
  | .equals => do return .equals (← required opened .value d.value)
  | .regex => do return .matchesPattern (← required opened .pattern d.pattern) d.caseRule

/-- Reads a condition after its keyword and registers it in the table of its
source. -/
def condition (bound : Nat) : Reading Unit := do
  let opened ← line
  let name ← name
  let d ← conditionClauses bound {}
  let source ← required opened .source d.source
  let source ← taking (Path.ofText source)
  let predicate ← predicate opened d
  extending (Session.onTable source.table (Table.addCondition ⟨name, source, predicate⟩))
  tell ((Event.ofSuccess Milestone.conditionAdded.text "Condition registered").details
    [("condition", name), ("table", source.table.word), ("line", toString opened)])

end Reading
end Condition
end DeviceSchema.Statement
