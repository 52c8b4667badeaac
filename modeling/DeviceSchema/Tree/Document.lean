import DeviceSchema.Json
import DeviceSchema.Tree.Session

/-! # The published document

A session as JSON, for generators of code.  A member is left out where nothing
is declared, except for the type of an element and the capacity of a collection,
which are then null.  Groups, conditions and errors are members by name.
-/
namespace DeviceSchema

/-- A member that is left out where there is no value. -/
def Json.member? {α : Type} (name : String) (value : Option α) (write : α → Json) :
    List (String × Json) :=
  value.toList.map fun v => (name, write v)

/-- A member that is left out where the list is empty. -/
def Json.listMember? {α : Type} (name : String) (values : List α) (write : α → Json) :
    List (String × Json) :=
  if values.isEmpty then [] else [(name, .list (values.map write))]

def Path.members (p : Path) : List (String × Json) :=
  [("table", .text p.table.word), ("path", Json.texts p.names)]

def Path.toJson (p : Path) : Json := .object p.members

def Predicate.members : Predicate → List (String × Json)
  | equals value => [("operation", .text Operation.equals.word), ("value", .text value)]
  | matchesPattern pattern caseRule =>
    [("operation", .text Operation.regex.word), ("pattern", .text pattern),
      ("case", .text caseRule.word)]

def Condition.toJson (c : Condition) : Json :=
  .object ([("name", .text c.name), ("source", c.source.toJson)] ++ c.predicate.members)

def Attachment.toJson (a : Attachment) : Json :=
  .object ([("name", .text a.name), ("reference", .text a.reference)] ++ a.predicate.members)

def Info.members (info : Info) : List (String × Json) :=
  [("name", .text info.name), ("description", .text info.description)] ++
    Json.member? "help" info.help .text ++
    Json.member? "access" info.access (fun access => .text access.word) ++
    Json.member? "condition" info.condition Attachment.toJson

def Info.toJson (info : Info) : Json := .object info.members

def PatternRule.members (rule : PatternRule) : List (String × Json) :=
  Json.member? "pattern" rule.pattern .text ++
    Json.member? "case" rule.caseRule (fun caseRule => .text caseRule.word) ++
    Json.member? "syntax" rule.wording .text

def Element.members (e : Element) : List (String × Json) :=
  e.info.members ++
    [("type", Json.text? (e.type.map ValueType.word))] ++
    Json.member? "min" e.min .text ++
    Json.member? "max" e.max .text ++
    Json.member? "default" e.default .text ++
    Json.member? "units" e.units .text ++
    (if e.rule.isEmpty then [] else [("regex", .object e.rule.members)]) ++
    Json.listMember? "values" e.values Info.toJson ++
    Json.listMember? "refs" e.references Info.toJson

def Element.toJson (e : Element) : Json := .object e.members

/-- The members of a collection apart from its children. -/
def Head.members (h : Head) : List (String × Json) :=
  h.info.members ++
    Json.member? "instances" h.instances Json.count ++
    Json.member? "keys" h.keys Json.texts ++
    [("capacity", Json.text? (h.capacity.map Capacity.word))]

mutual

/-- An item, which says of what kind it is. -/
def Item.toJson : Item → Json
  | .element e => .object (("kind", .text "element") :: e.members)
  | .list head items =>
    .object (("kind", .text "list") :: head.members ++ [("items", .list (Item.allToJson items))])

def Item.allToJson : List Item → List Json
  | [] => []
  | i :: rest => i.toJson :: Item.allToJson rest

end

def Collection.members (c : Collection) : List (String × Json) :=
  c.head.members ++ [("items", .list (Item.allToJson c.items))]

/-- Errors by name. -/
def Notice.allToJson (notices : List Notice) : Json :=
  .object (notices.map fun n => (n.name, .text n.description))

def Group.toJson (g : Group) : Json :=
  .object (g.body.members ++
    if g.errors.isEmpty then [] else [("errors", Notice.allToJson g.errors)])

def Table.toJson (t : Table) : Json :=
  .object [("table_type", .text t.kind.word),
    ("groups", .object (t.groups.map fun g => (g.name, g.toJson))),
    ("conditions", .object (t.conditions.map fun c => (c.name, c.toJson)))]

def Catalog.toJson (c : Catalog) : Json :=
  .object [("offset", Json.count c.offset), ("entries", Notice.allToJson c.entries)]

def Catalogs.toJson (c : Catalogs) : Json :=
  .object [("fatal", c.fatal.toJson), ("protocol", c.protocol.toJson),
    ("user", c.declared.toJson)]

def Limits.toJson (limits : Limits) : Json :=
  .object [("max_attribute_length", Json.count limits.attributeLength),
    ("max_name_length", Json.count limits.nameLength),
    ("max_dynamic_key_length", Json.count limits.keyLength.toNat)]

def Features.toJson (f : Features) : Json :=
  .object [("variable_group", .bool f.flexibleGroup), ("variable_list", .bool f.flexibleList),
    ("dictionary", .bool f.dictionary), ("variable_array", .bool f.flexibleArray),
    ("variable_dictionary", .bool f.flexibleDictionary)]

def Statistics.toJson (s : Statistics) : Json :=
  .object [("max_list_depth", Json.count s.listDepth),
    ("max_name_lengths", .object [("collections", Json.count s.collectionName),
      ("elements", Json.count s.elementName), ("values", Json.count s.memberName)]),
    ("types_seen", Json.texts (s.types.map ValueType.word)),
    ("flags", s.features.toJson)]

def Session.toJson (s : Session) : Json :=
  .object [("limits", s.limits.toJson), ("setting", s.setting.toJson), ("state", s.state.toJson),
    ("global_errors", s.catalogs.toJson), ("statistics", s.statistics.toJson)]

end DeviceSchema
