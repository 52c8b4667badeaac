import DeviceSchema.Tree.Collection

/-! # Tables

A table registers groups and conditions under their names, in the order in which
they were added.  A path of names is resolved from a group down through nested
lists.
-/
namespace DeviceSchema

/-- What a path leads to. -/
inductive Node where
  | group (g : Group)
  | item (i : Item)
deriving Repr

namespace Node

def name : Node → String
  | group g => g.name
  | item i => i.name

/-- What the node is, in a word. -/
def word : Node → String
  | group _ => "group"
  | item (.list _ _) => "list"
  | item (.element _) => "element"

def element? : Node → Option Element
  | group _ => none
  | item i => i.element?

/-- The collection that the node is. -/
def collection? : Node → Option Collection
  | group g => some g.body
  | item i => i.collection?

end Node

/-- The groups and conditions of one of the two tables. -/
structure Table where
  kind : TableKind
  groups : List Group := []
  conditions : List Condition := []
deriving Repr

namespace Table

/-- The group called `name`. -/
def group? (t : Table) (name : String) : Option Group := t.groups.find? (·.name = name)

/-- The condition called `name`. -/
def condition? (t : Table) (name : String) : Option Condition :=
  t.conditions.find? (·.name = name)

/-- The condition called `name`, which has to be known. -/
def condition (t : Table) (name : String) : Except Defect Condition :=
  match t.condition? name with
  | some condition => .ok condition
  | none => .error (.unknownCondition name)

/-- Adds a group, whose name must be new. -/
def addGroup (group : Group) : Changing Table Unit := do
  if ((← get).group? group.name).isSome then throw (.repeatedGroup group.name)
  modify fun t => { t with groups := t.groups ++ [group] }

/-- Adds a condition, whose name must be new. -/
def addCondition (condition : Condition) : Changing Table Unit := do
  if ((← get).condition? condition.name).isSome then
    throw (.repeatedConditionName condition.name)
  modify fun t => { t with conditions := t.conditions ++ [condition] }

/-- What a path of names leads to. -/
def resolve (t : Table) : List String → Option Node
  | [] => none
  | [group] => (t.group? group).map .group
  | group :: child :: rest => do
    let group ← t.group? group
    let item ← group.body.find? child
    let item ← item.walk rest
    return .item item

/-- Changes the group called `name`, if there is one and `change` allows it. -/
def updateGroup? (change : Group → Option Group) (name : String) :
    List Group → Option (List Group)
  | [] => none
  | g :: rest =>
    if g.name = name then (change g).map (· :: rest)
    else (updateGroup? change name rest).map (g :: ·)

/-- Changes the element that a path of names leads to, if it is one. -/
def updateElement? (t : Table) (path : List String) (change : Element → Element) :
    Option Table :=
  match path with
  | [] => none
  | group :: rest =>
    let changeGroup := fun (g : Group) =>
      (Item.updateElement? change rest g.body.items).map fun items =>
        { g with body := { g.body with items } }
    (updateGroup? changeGroup group t.groups).map fun groups => { t with groups }

end Table
end DeviceSchema
