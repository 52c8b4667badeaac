/-! # TOML values

A **value** of a TOML document, and how tables grow while a document is read.  A
table may be written in pieces: under headers, under dotted keys, or as what a
longer header implies.  Its **origin** says which of them wrote it, and with it who
may still add to it.
-/
namespace DeviceSchema.Toml

/-- What wrote a table. -/
inductive Origin where
  /-- The table stands between braces, or a dotted key there, and is complete. -/
  | braces
  | header
  /-- The table is implied by the header of a table inside it. -/
  | implied
  | dottedKey
deriving DecidableEq, Repr

/-- A value.  Of fractions and of dates and times only the kind is kept. -/
inductive Value where
  | text (value : String)
  | integer (value : Int)
  | boolean (value : Bool)
  | fraction
  | moment
  | array (values : List Value)
  | table (origin : Origin) (entries : List (String × Value))
  /-- Tables that headers with double brackets put one after another. -/
  | series (tables : List (List (String × Value)))
deriving Repr

mutual

/-- The value as it is when the braces around it close: dotted keys add no more. -/
def Value.closed : Value → Value
  | .table .dottedKey entries => .table .braces (closedEntries entries)
  | value => value

def closedEntries : List (String × Value) → List (String × Value)
  | [] => []
  | (name, value) :: entries => (name, value.closed) :: closedEntries entries

end

/-- Values by name, each name once. -/
abbrev Table := List (String × Value)

namespace Table

/-- Puts a value in place of the one of the same name, or at the end. -/
def put (t : Table) (name : String) (value : Value) : Table :=
  if t.any (·.1 = name) then t.map fun entry => if entry.1 = name then (name, value) else entry
  else t ++ [(name, value)]

/-- Applies a change to the last table of a series. -/
def changeLast (change : Table → Option Table) (tables : List Table) : Option Value := do
  let table ← change (← tables.getLast?)
  return .series (tables.dropLast ++ [table])

/-- Adds a value under a dotted key, given by the names before the last and the last
one.  The tables on the way come from dotted keys, the innermost one at least; none
may have had a header of its own. -/
def insert (value : Value) : List String → String → Table → Option Table
  | [], key, t => if (t.lookup key).isSome then none else some (t ++ [(key, value)])
  | name :: path, key, t =>
    match t.lookup name with
    | none => (insert value path key []).map fun inner => t.put name (.table .dottedKey inner)
    | some (.table .dottedKey inner) =>
      (insert value path key inner).map fun inner => t.put name (.table .dottedKey inner)
    | some (.table .implied inner) =>
      if path.isEmpty then none
      else (insert value path key inner).map fun inner => t.put name (.table .implied inner)
    | some (.series tables) =>
      if path.isEmpty then none
      else (changeLast (insert value path key) tables).map (t.put name)
    | some _ => none

/-- Changes what stands under the names of a header.  Tables on the way that are
missing are implied; of a series the last table counts. -/
def update (change : Option Value → Option Value) : List String → String → Table → Option Table
  | [], key, t => (change (t.lookup key)).map (t.put key)
  | name :: path, key, t =>
    match t.lookup name with
    | none => (update change path key []).map fun inner => t.put name (.table .implied inner)
    | some (.table .braces _) => none
    | some (.table origin inner) =>
      (update change path key inner).map fun inner => t.put name (.table origin inner)
    | some (.series tables) => (changeLast (update change path key) tables).map (t.put name)
    | some _ => none

end Table
end DeviceSchema.Toml
