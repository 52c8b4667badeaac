import DeviceSchema.Tree.Defect

/-! # Paths

A **path** names a node of one of the two tables by the names that lead to it
from a group on.  It is written `setting:/group/list/element`; the table may be
left out and is then the setting table.

One node can refer to another by a **relative reference**, which goes up by `..`
and down by names.  On the way down every list is followed by the instance `1`.
-/
namespace DeviceSchema

/-- A table and the names from one of its groups down to a node. -/
structure Path where
  table : TableKind
  names : List String
deriving DecidableEq, Repr

namespace Path

/-- The path of a whole table. -/
def root (table : TableKind) : Path := ⟨table, []⟩

/-- The number of names. -/
def depth (p : Path) : Nat := p.names.length

/-- The path of the child called `name`. -/
def child (p : Path) (name : String) : Path := { p with names := p.names ++ [name] }

/-- The path of the parent; a table has none. -/
def parent? (p : Path) : Option Path :=
  if p.names.isEmpty then none else some { p with names := p.names.dropLast }

/-- The path as it is written. -/
def render (p : Path) : String := p.table.word ++ ":/" ++ "/".intercalate p.names

section Reading

/-- A text without one slash at its start. -/
def withoutSlash : List Char → List Char
  | '/' :: rest => rest
  | text => text

/-- The names between slashes, without those at the end that are empty. -/
def namesOf (text : List Char) : List String :=
  let pieces := (withoutSlash text).splitOn '/'
  ((pieces.reverse.dropWhile List.isEmpty).reverse).map String.ofList

/-- Reads a path.  A colon ends the name of the table only when no slash is
before it; later colons belong to the names. -/
def ofText (text : String) : Except Defect Path :=
  let chars := text.toList
  let table := chars.takeWhile (· ≠ ':')
  match chars.dropWhile (· ≠ ':') with
  | _ :: rest =>
    if table.contains '/' then .ok ⟨.setting, namesOf chars⟩
    else (TableKind.ofText (String.ofList table)).map fun kind => ⟨kind, namesOf rest⟩
  | [] => .ok ⟨.setting, namesOf chars⟩

end Reading

section Relative

/-- The number of names that two lists of names begin with in common. -/
def commonLength : List String → List String → Nat
  | a :: as, b :: bs => if a = b then commonLength as bs + 1 else 0
  | _, _ => 0

/-- The steps from `anchor` to `p`, both in one table.  Paths that share no name
are joined by an absolute reference, which starts with an empty step. -/
def stepsFrom (p anchor : Path) : List String :=
  let common := commonLength p.names anchor.names
  let up := if common = 0 then [""] else List.replicate (anchor.depth - common) ".."
  up ++ (p.names.drop common).intersperse "1"

/-- The reference that leads from `anchor` to `p`. -/
def relativeTo (p anchor : Path) : Except Defect String :=
  if p.table ≠ anchor.table then .error .differentTables
  else if p.names = anchor.names then .error .samePlace
  else .ok ("/".intercalate (p.stepsFrom anchor))

end Relative
end Path
end DeviceSchema
