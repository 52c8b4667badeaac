import DeviceSchema.Limits
import DeviceSchema.Tree.Element

/-! # Collections

A **collection** holds items, which are elements or again lists of items.  Its
entries are counted or named by keys: with a number of instances it is an array,
without one a dictionary.  A **list** is a collection inside another; a **group**
is a collection at the top of a table, with errors of its own.

Children have distinct names and keep the order in which they were added.
`settle` decides what was left open once all children are known.
-/
namespace DeviceSchema

/-- What a collection says of itself, apart from its children. -/
structure Head where
  info : Info
  /-- The number of entries, if they are counted. -/
  instances : Option Nat := none
  /-- The keys given in advance, if entries are named by keys. -/
  keys : Option (List String) := none
  capacity : Option Capacity := none
deriving DecidableEq, Repr

/-- A node of the tree below a group. -/
inductive Item where
  | element (e : Element)
  | list (head : Head) (items : List Item)
deriving Repr

/-- A list or the body of a group. -/
structure Collection where
  head : Head
  items : List Item := []
deriving Repr

namespace Head

/-- Whether entries are named by keys. -/
def isDictionary (h : Head) : Bool := h.instances.isNone

/-- Whether entries can be added and removed. -/
def isFlexible (h : Head) : Bool := h.capacity = some .flexible

/-- Declares the number of instances, which has to be positive. -/
def declareInstances (count : Int) : Changing Head Unit := do
  let head ← get
  if count ≤ 0 then throw (.invalidInstances head.info.name)
  modify fun h => { h with instances := some count.toNat }

def declareCapacity (h : Head) (capacity : Capacity) : Head := { h with capacity := some capacity }

def declareKeys (h : Head) (keys : List String) : Head := { h with keys := some keys }

/-- Fills in what was not declared.  A collection without a number of instances
and without keys has one fixed instance; keys that users add make it flexible;
everything else is fixed. -/
def settled (h : Head) : Head :=
  match h.instances, h.keys with
  | none, none => { h with instances := some 1, capacity := some .fixed }
  | none, some keys =>
    { h with capacity := some (h.capacity.getD (if keys.isEmpty then .flexible else .fixed)) }
  | some _, none => { h with capacity := some (h.capacity.getD .fixed) }
  | some _, some _ => h

end Head

namespace Item

def info : Item → Info
  | element e => e.info
  | list head _ => head.info

def name (i : Item) : String := i.info.name

/-- A list as an item. -/
def ofCollection (c : Collection) : Item := list c.head c.items

def element? : Item → Option Element
  | element e => some e
  | list _ _ => none

def collection? : Item → Option Collection
  | element _ => none
  | list head items => some ⟨head, items⟩

/-- The item called `name`. -/
def find? (items : List Item) (name : String) : Option Item :=
  items.find? (·.name = name)

/-- The item that a path of names leads to from an item. -/
def walk : List String → Item → Option Item
  | [], i => some i
  | name :: rest, list _ items => (find? items name).bind (walk rest)
  | _ :: _, element _ => none

/-- Changes the item called `name`, if there is one and `change` allows it. -/
def update? (change : Item → Option Item) (name : String) : List Item → Option (List Item)
  | [] => none
  | i :: rest =>
    if i.name = name then (change i).map (· :: rest)
    else (update? change name rest).map (i :: ·)

/-- Changes the element that a path of names leads to. -/
def updateElement? (change : Element → Element) : List String → List Item → Option (List Item)
  | [], _ => none
  | [name], items =>
    update? (fun i => i.element?.map fun e => element (change e)) name items
  | name :: rest, items =>
    update? (fun
      | list head children => (updateElement? change rest children).map (list head)
      | element _ => none) name items

end Item

namespace Collection

def name (c : Collection) : String := c.head.info.name

/-- The child called `name`. -/
def find? (c : Collection) (name : String) : Option Item := Item.find? c.items name

/-- Adds a child, whose name must be new. -/
def add (item : Item) : Changing Collection Unit := do
  if ((← get).find? item.name).isSome then throw (.repeatedItem item.name)
  modify fun c => { c with items := c.items ++ [item] }

/-- Users may add keys only where the device reserves room for them and the
collection can grow, and a collection has children. -/
def checkSettled (c : Collection) (limits : Limits) : Except Defect Unit :=
  if c.head.keys.isSome && c.head.capacity = some .fixed then .error .fixedDictionary
  else if c.head.keys.isSome && !limits.allowsKeys then .error .keysNotEnabled
  else if c.items.isEmpty then .error .noItems
  else .ok ()

/-- Fills in what was left open and checks the collection.  What was filled in
stays when the check fails. -/
def settle (c : Collection) (limits : Limits) : Except Defect Unit × Collection :=
  if c.head.instances.isSome && c.head.keys.isSome then (.error .countAndKeys, c)
  else
    let c := { c with head := c.head.settled }
    (c.checkSettled limits, c)

end Collection

/-- An error that a device reports: its name and what it says. -/
structure Notice where
  name : String
  description : String
deriving DecidableEq, Repr

/-- A collection at the top of a table. -/
structure Group where
  body : Collection
  errors : List Notice := []
deriving Repr

namespace Group

def name (g : Group) : String := g.body.name

/-- Adds an error of the group, whose name must be new. -/
def addError (name : String) (description : Option String) : Changing Group Unit := do
  if (← get).errors.any (·.name = name) then throw (.repeatedError name)
  let some description := description | throw .missingErrorDescription
  modify fun g => { g with errors := g.errors ++ [⟨name, description⟩] }

end Group
end DeviceSchema
