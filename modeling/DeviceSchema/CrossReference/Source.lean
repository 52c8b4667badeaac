import DeviceSchema.CrossReference.Reference

/-! # Sources of conditions

The source of a condition has to be an element of the table in which the
condition is registered.  A condition that no node of its table carries is
unused, which is worth a warning but no fault.
-/
namespace DeviceSchema.CrossReference

/-- The source of a condition is an element. -/
def checkSource (table : Table) (condition : Condition) : Except Fault Unit :=
  match table.resolve condition.source.names with
  | some (.item (.element _)) => .ok ()
  | some _ => .error (.sourceNotElement condition.name)
  | none => .error (.unresolvedSource condition.name)

/-- The number of conditions of a table, whose sources all have to be elements. -/
def checkSources (table : Table) : Except Fault Nat := do
  table.conditions.forM (checkSource table)
  return table.conditions.length

/-- The name of the condition that an item carries. -/
def carried (info : Info) : List String := (info.condition.map Attachment.name).toList

mutual

/-- The names of the conditions that an item and its descendants carry. -/
def carriedByItem : Item → List String
  | .element e => carried e.info
  | .list head items => carried head.info ++ carriedByItems items

def carriedByItems : List Item → List String
  | [] => []
  | i :: rest => carriedByItem i ++ carriedByItems rest

end

/-- The names of the conditions that nodes of a table carry. -/
def carriedInTable (table : Table) : List String :=
  table.groups.flatMap fun g => carried g.body.head.info ++ carriedByItems g.body.items

/-- The conditions of a table that no node carries. -/
def unused (table : Table) : List String :=
  let carried := carriedInTable table
  (table.conditions.map Condition.name).filter fun name => !carried.contains name

end DeviceSchema.CrossReference
