import DeviceSchema.Tree.Document

/-! # The outline

What generated code takes from a session beside the published document: the
identifiers of its nodes, the texts that a device publishes of them, initializers
and the numbers of types and errors.  Unlike the document, the outline is made of
lists, so it shows in which order things were declared.
-/
namespace DeviceSchema

def Info.outline (info : Info) : List (String × Json) :=
  [("rci_description", .text info.published), ("sanitized_name", .text info.identifier)]

def Element.outline (e : Element) : Json :=
  .object ([("name", .text e.name), ("default_value", Json.text? e.initializer?),
    ("wire_value", Json.count? (e.type.map ValueType.wireValue))] ++ e.info.outline)

/-- The outline of a collection apart from its children. -/
def Head.outline (h : Head) : List (String × Json) :=
  [("name", .text h.info.name), ("array", .bool !h.isDictionary),
    ("dictionary", .bool h.isDictionary), ("variable", .bool h.isFlexible)] ++ h.info.outline

mutual

def Item.outline : Item → Json
  | .element e => e.outline
  | .list head items =>
    .object (head.outline ++ [("items", .list (Item.allOutlines items))])

def Item.allOutlines : List Item → List Json
  | [] => []
  | i :: rest => i.outline :: Item.allOutlines rest

end

def Collection.outline (c : Collection) : List (String × Json) :=
  c.head.outline ++ [("items", .list (Item.allOutlines c.items))]

/-- How entries fill a collection: the number of them, their keys, whether they can
be added, the items of each, and what follows from these. -/
def Collection.filling (c : Collection) : Json :=
  .list [Json.count? c.head.instances, (c.head.keys.map Json.texts).getD .null,
    Json.text? (c.head.capacity.map Capacity.word), .count c.items.length,
    .bool c.head.isDictionary, .bool c.head.isFlexible]

/-- The names of errors with what they say. -/
def Notice.outlines (notices : List Notice) : Json :=
  .list (notices.map fun n => Json.texts [n.name, n.description])

def Group.outline (g : Group) : Json :=
  .object (g.body.outline ++ [("errors", Notice.outlines g.errors)])

def Condition.outline (c : Condition) : Json :=
  Json.texts [c.name, c.source.render, c.predicate.operation.word]

def Table.outline (t : Table) : Json :=
  .object [("table", .text t.kind.word), ("empty", .bool t.groups.isEmpty),
    ("groups", .list (t.groups.map Group.outline)),
    ("conditions", .list (t.conditions.map Condition.outline))]

/-- The entries of a catalog with their numbers. -/
def Catalog.outline (c : Catalog) : Json :=
  .object [("offset", .count c.offset), ("end", .count c.stop),
    ("entries", .list (c.entries.zipIdx.map fun (n, index) =>
      .list [.count (c.offset + index), .text n.name, .text n.description]))]

def Session.outline (s : Session) : Json :=
  .object [("tables", .list (s.tables.map Table.outline)),
    ("user_errors", s.catalogs.declared.outline),
    ("group_errors_offset", .count s.catalogs.groupErrorsOffset),
    ("ref_enums", Json.texts (s.refEnums.map Path.render)),
    ("types_seen", Json.texts (s.statistics.types.map ValueType.word))]

end DeviceSchema
