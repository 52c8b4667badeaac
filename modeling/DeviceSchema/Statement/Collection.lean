import DeviceSchema.Statement.Element

/-! # Lists and groups in the source

    list NAME [count] "label" ["help"] clause* end
    group TABLE NAME [count] "label" ["help"] clause* [end]

The clauses of a list are read until `end`; a token that begins no clause is a
failure.  The clauses of a group end at `end` or, like those of an element, at the
first token that begins none.  Both also end with the source.

The access in force starts as that of the place where a collection stands.  An
access clause of a list puts another one in force from there to the end of the
list.
-/
namespace DeviceSchema.Statement

section Lists

/-- The clauses of a list. -/
inductive ListClause where
  | capacity
  | keys
  | access
  | element
  | list
  | condition
  | stop
deriving DecidableEq, Repr

/-- The keywords of the clauses of a list. -/
def listKeywords : List (String × ListClause) :=
  [("capacity", .capacity), ("keys", .keys), ("access", .access), ("element", .element),
    ("list", .list), ("condition", .condition), ("end", .stop)]

/-- Where a list stands in the source and in the tree. -/
structure ListPlace where
  /-- The line on which the list was opened. -/
  opened : Nat
  here : Path
  /-- The number of lists from the group down to this one. -/
  depth : Nat

/-- What has been declared of a list, and the access in force. -/
structure ListDraft where
  collection : Collection
  access : Access

namespace Reading
variable [PatternCompiler]

/-- Adds a child to a collection. -/
def adding (c : Collection) (item : Item) : Reading Collection := changing (c.add item)

/-- Attaches a condition to a collection. -/
def attaching (c : Collection) (here : Path) : Reading Collection := do
  let info ← attachment c.head.info here
  return { c with head := { c.head with info } }

/-- Reads what stands before the clauses of a list, after its keyword. -/
def openList (access : Access) (parent : Path) (outer : Nat) :
    Reading (ListPlace × ListDraft) := do
  let opened ← line
  let name ← name
  let count ← instances?
  let depth := outer + 1
  if Ceiling.listDepth < depth then
    failIn .list name opened (.listTooDeep Ceiling.listDepth)
  note (·.noteListDepth depth)
  let label ← label?
  let help ← help?
  let info ← taking (Info.ofItem name label help)
  note (·.noteCollectionName name.length)
  let head ← match count with
    | some count => changing (Head.declareInstances count { info })
    | none => pure { info }
  return (⟨opened, parent.child name, depth⟩, ⟨{ head }, access⟩)

/-- Settles a list whose clauses have been read. -/
def closeList (place : ListPlace) (d : ListDraft) : Reading Collection := do
  let c := d.collection
  let c := { c with head := { c.head with info := c.head.info.inheritAccess d.access } }
  let (result, c) := c.settle (← limits)
  closing .list c.name place.opened result
  note (·.noteCollection c.head false)
  note (·.noteType .list)
  return c

/-- Reads a list after its keyword, given how its clauses are read. -/
def list (clauses : ListPlace → ListDraft → Reading ListDraft)
    (access : Access) (parent : Path) (outer : Nat) : Reading Collection := do
  let (place, d) ← openList access parent outer
  let d ← clauses place d
  closeList place d

/-- Reads an access clause, which also puts the access in force. -/
def accessClause (d : ListDraft) : Reading ListDraft := do
  let access ← access
  let info ← changing (d.collection.head.info.declareAccess access)
  return ⟨{ d.collection with head := { d.collection.head with info } }, access⟩

/-- Reads at most `bound` clauses of a list, and of the lists in it. -/
def listClauses : Nat → ListPlace → ListDraft → Reading ListDraft
  | 0, _, d => return d
  | bound + 1, place, d => do
    let some token ← token? | return d
    match Lead.ofToken listKeywords token with
    | .clause .capacity => do
      let capacity ← capacity .list place.opened
      let head := d.collection.head.declareCapacity capacity
      listClauses bound place { d with collection := { d.collection with head } }
    | .clause .keys => do
      let keys ← keys .list place.opened
      let head := d.collection.head.declareKeys keys
      listClauses bound place { d with collection := { d.collection with head } }
    | .clause .access => do
      let d ← accessClause d
      listClauses bound place d
    | .clause .element => do
      let e ← element bound d.access place.here
      let collection ← adding d.collection (.element e)
      listClauses bound place { d with collection }
    | .clause .list => do
      let c ← list (listClauses bound) d.access place.here place.depth
      let collection ← adding d.collection (.ofCollection c)
      listClauses bound place { d with collection }
    | .clause .condition => do
      let collection ← attaching d.collection place.here
      listClauses bound place { d with collection }
    | .clause .stop => return d
    | .comment => do
      dropLine
      listClauses bound place d
    | .other => failWithin .list place.opened (.unknownInList token.text)

end Reading
end Lists

section Groups

/-- The clauses of a group. -/
inductive GroupClause where
  | capacity
  | keys
  | condition
  | element
  | list
  | error
  | stop
deriving DecidableEq, Repr

/-- The keywords of the clauses of a group. -/
def groupKeywords : List (String × GroupClause) :=
  [("capacity", .capacity), ("keys", .keys), ("condition", .condition), ("element", .element),
    ("list", .list), ("error", .error), ("end", .stop)]

/-- Where a group stands in the source and in the tree. -/
structure GroupPlace where
  opened : Nat
  here : Path
deriving DecidableEq, Repr

namespace Reading
variable [PatternCompiler]

/-- `error NAME "description"` -/
def errorClause (g : Group) : Reading Group := do
  let name ← name
  let description ← description? .error
  changing (g.addError name description)

/-- Reads at most `bound` clauses of a group. -/
def groupClauses (place : GroupPlace) : Nat → Group → Reading Group
  | 0, g => return g
  | bound + 1, g => do
    let some token ← token? | return g
    match Lead.ofToken groupKeywords token with
    | .clause .capacity => do
      let capacity ← capacity .group place.opened
      let head := g.body.head.declareCapacity capacity
      groupClauses place bound { g with body := { g.body with head } }
    | .clause .keys => do
      let keys ← keys .group place.opened
      let head := g.body.head.declareKeys keys
      groupClauses place bound { g with body := { g.body with head } }
    | .clause .condition => do
      let body ← attaching g.body place.here
      groupClauses place bound { g with body }
    | .clause .element => do
      let e ← element bound place.here.table.defaultAccess place.here
      let body ← adding g.body (.element e)
      groupClauses place bound { g with body }
    | .clause .list => do
      let c ← list (listClauses bound) place.here.table.defaultAccess place.here 0
      let body ← adding g.body (.ofCollection c)
      groupClauses place bound { g with body }
    | .clause .error => do
      let g ← errorClause g
      groupClauses place bound g
    | .clause .stop => return g
    | .comment => do
      dropLine
      groupClauses place bound g
    | .other => do
      handBack token
      return g

/-- Reads what stands before the clauses of a group, after its keyword. -/
def openGroup : Reading (GroupPlace × Group) := do
  let opened ← line
  let word ← tokenText
  let some table := TableKind.ofWord? word | failAt opened (.defect (.unknownTable word))
  let name ← name
  let count ← instances?
  let label ← label?
  let help ← help?
  let info ← taking (Info.ofItem name label help)
  note (·.noteCollectionName name.length)
  let head ← match count with
    | some count => changing (Head.declareInstances count { info })
    | none => pure { info }
  return (⟨opened, (Path.root table).child name⟩, { body := { head } })

/-- Settles a group whose clauses have been read, and registers it. -/
def closeGroup (place : GroupPlace) (g : Group) : Reading Unit := do
  let (result, body) := g.body.settle (← limits)
  closing .group g.name place.opened result
  note (·.noteCollection body.head true)
  let kind := place.here.table
  extending (Session.onTable kind (Table.addGroup { g with body }))
  tell ((Event.ofSuccess Milestone.groupAdded.text "Group registered").details
    [("group", g.name), ("table", kind.word), ("items", toString body.items.length),
      ("line", toString place.opened)])

/-- Reads a group after its keyword. -/
def group (bound : Nat) : Reading Unit := do
  let (place, g) ← openGroup
  let g ← groupClauses place bound g
  closeGroup place g

end Reading
end Groups
end DeviceSchema.Statement
