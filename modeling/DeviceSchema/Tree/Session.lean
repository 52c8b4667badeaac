import DeviceSchema.Tree.Catalog
import DeviceSchema.Tree.Statistics
import DeviceSchema.Tree.Table

/-! # Sessions

A **session** is all that descriptions declare for a device: both tables, the
error catalogs, the statistics and the paths of the `ref_enum` elements, whose
references are checked once everything is known.
-/
namespace DeviceSchema

/-- All that is declared for a device. -/
structure Session where
  limits : Limits := {}
  setting : Table := { kind := .setting }
  state : Table := { kind := .state }
  catalogs : Catalogs := {}
  statistics : Statistics := {}
  /-- The paths of `ref_enum` elements, in the order of their declarations. -/
  refEnums : List Path := []
deriving Repr

namespace Session

/-- The empty session. -/
def ofLimits (limits : Limits) : Session := { limits }

def table (s : Session) : TableKind → Table
  | .setting => s.setting
  | .state => s.state

def withTable (s : Session) : TableKind → Table → Session
  | .setting, t => { s with setting := t }
  | .state, t => { s with state := t }

/-- A change of a table. -/
def onTable (kind : TableKind) (change : Changing Table Unit) : Changing Session Unit :=
  change.within (·.table kind) fun t s => s.withTable kind t

/-- A change of the error catalogs. -/
def onCatalogs (change : Changing Catalogs Unit) : Changing Session Unit :=
  change.within catalogs fun catalogs s => { s with catalogs }

/-- Both tables. -/
def tables (s : Session) : List Table := [s.setting, s.state]

/-- The number of groups of both tables. -/
def groupCount (s : Session) : Nat := s.setting.groups.length + s.state.groups.length

/-- Changes the statistics. -/
def note (s : Session) (change : Statistics → Statistics) : Session :=
  { s with statistics := change s.statistics }

/-- Remembers a `ref_enum` element. -/
def noteRefEnum (s : Session) (path : Path) : Session := { s with refEnums := s.refEnums ++ [path] }

/-- What a path leads to. -/
def resolve (s : Session) (path : Path) : Option Node := (s.table path.table).resolve path.names

end Session
end DeviceSchema
