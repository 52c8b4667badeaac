import DeviceSchema.Toml.Lexical
import DeviceSchema.Toml.Numeral
import DeviceSchema.Toml.Value

/-! # TOML documents

A document is read in two steps: its text into **lines**, each of which is a header,
a value under a key, or nothing; and the lines into the table that they describe.
-/
namespace DeviceSchema.Toml

/-- The depth to which values nest, and the number of names of a key. -/
def mostDepth : Nat := 79

/-- Adds a value under a key of one or more names. -/
def Table.insertAt (t : Table) (key : List String) (value : Value) : Option Table := do
  t.insert value key.dropLast (← key.getLast?)

/-- Changes what stands under a header of one or more names. -/
def Table.updateAt (t : Table) (key : List String) (change : Option Value → Option Value) :
    Option Table := do
  t.update change key.dropLast (← key.getLast?)

section Values

/-- Reads a value that is neither an array nor a table. -/
def readScalar (text : List Char) : Option (Value × List Char) :=
  match text with
  | 't' :: 'r' :: 'u' :: 'e' :: rest => some (.boolean true, rest)
  | 'f' :: 'a' :: 'l' :: 's' :: 'e' :: rest => some (.boolean false, rest)
  | c :: _ =>
    if c = '"' || c = plainQuote then
      (readText text).map fun (value, rest) => (.text value, rest)
    else match readMoment text with
      | some rest => some (.moment, rest)
      | none => (readNumber text).map fun
        | (.integer value, rest) => (.integer value, rest)
        | (.fraction, rest) => (.fraction, rest)
  | [] => none

/-! The first argument of a reader bounds its steps and the second one the depth to
which values may still nest. -/

mutual

/-- Reads a value. -/
def readValue : Nat → Nat → List Char → Option (Value × List Char)
  | steps + 1, depth + 1, '[' :: rest => readItems steps depth [] rest
  | steps + 1, depth + 1, '\x7b' :: rest =>
    match skipBlanks rest with
    | '\x7d' :: rest => some (.table .braces [], rest)
    | rest => readEntries steps depth [] rest
  | _, _, text => readScalar text

/-- Reads the rest of an array; `done` are its values so far, backwards. -/
def readItems : Nat → Nat → List Value → List Char → Option (Value × List Char)
  | 0, _, _, _ => none
  | steps + 1, depth, done, text =>
    match skipLines false text with
    | ']' :: rest => some (.array done.reverse, rest)
    | text => do
      let (value, rest) ← readValue steps depth text
      match skipLines false rest with
      | ',' :: rest => readItems steps depth (value :: done) rest
      | ']' :: rest => return (.array (value :: done).reverse, rest)
      | _ => none

/-- Reads the rest of a table between braces, which has one more value at least. -/
def readEntries : Nat → Nat → Table → List Char → Option (Value × List Char)
  | 0, _, _, _ => none
  | steps + 1, depth, done, text => do
    let (key, rest) ← readKey mostDepth text
    match rest with
    | '=' :: rest => do
      let (value, rest) ← readValue steps depth (skipBlanks rest)
      let done ← done.insertAt key value
      match skipBlanks rest with
      | ',' :: rest => readEntries steps depth done rest
      | '\x7d' :: rest => return (.table .braces (closedEntries done), rest)
      | _ => none
    | _ => none

end

end Values

/-- A line of a document. -/
inductive Line where
  | nothing
  /-- A header; one with double brackets begins another table of a series. -/
  | header (isSeries : Bool) (key : List String)
  | value (key : List String) (value : Value)
deriving Repr

section Lines

/-- Reads a header after its opening bracket. -/
def readHeader (text : List Char) : Option (Line × List Char) :=
  match text with
  | '[' :: text => do
    let (key, rest) ← readKey mostDepth text
    match rest with
    | ']' :: ']' :: rest => return (.header true key, ← endLine rest)
    | _ => none
  | text => do
    let (key, rest) ← readKey mostDepth text
    match rest with
    | ']' :: rest => return (.header false key, ← endLine rest)
    | _ => none

/-- Reads a line. -/
def readLine (text : List Char) : Option (Line × List Char) :=
  match endLine text with
  | some rest => some (.nothing, rest)
  | none =>
    match skipBlanks text with
    | '[' :: rest => readHeader rest
    | text => do
      let (key, rest) ← readKey mostDepth text
      match rest with
      | '=' :: rest => do
        let (value, rest) ← readValue (2 * text.length) mostDepth (skipBlanks rest)
        return (.value key value, ← endLine rest)
      | _ => none

/-- Reads at most so many lines. -/
def readLines : Nat → List Char → Option (List Line)
  | 0, _ => none
  | _, [] => some []
  | lines + 1, text => do
    let (line, rest) ← readLine text
    return line :: (← readLines lines rest)

end Lines

section Assembly

/-- The values between two headers. -/
structure Part where
  /-- The header above them, except at the start of the document. -/
  header : Option (Bool × List String) := none
  values : List (List String × Value) := []

/-- Adds values to a table. -/
def Table.insertAll (t : Table) (values : List (List String × Value)) : Option Table :=
  values.foldlM (fun t (key, value) => t.insertAt key value) t

/-- Adds a part to the table of the document.  A header may name a table that has
only been implied so far, and one with double brackets a series. -/
def Table.addPart (t : Table) (part : Part) : Option Table :=
  match part.header with
  | none => t.insertAll part.values
  | some (false, key) => t.updateAt key fun
    | none => (Table.insertAll [] part.values).map (.table .header)
    | some (.table .implied entries) =>
      (Table.insertAll entries part.values).map (.table .header)
    | some _ => none
  | some (true, key) => t.updateAt key fun
    | none => (Table.insertAll [] part.values).map fun table => .series [table]
    | some (.series tables) =>
      (Table.insertAll [] part.values).map fun table => .series (tables ++ [table])
    | some _ => none

/-- The parts of a document. -/
def partsOf (lines : List Line) : List Part :=
  let (last, done) := lines.foldl (fun (part, done) line =>
    match line with
    | .nothing => (part, done)
    | .header isSeries key => ({ header := some (isSeries, key) }, part :: done)
    | .value key value => ({ part with values := (key, value) :: part.values }, done))
    (({} : Part), [])
  (last :: done).reverse.map fun part => { part with values := part.values.reverse }

end Assembly

/-- A text without a byte order mark at its start. -/
def withoutMark : List Char → List Char
  | c :: rest => if c.toNat = 0xFEFF then rest else c :: rest
  | [] => []

/-- The table that a document describes. -/
def ofText? (text : String) : Option Table := do
  let chars := withoutMark text.toList
  let lines ← readLines (chars.length + 1) chars
  (partsOf lines).foldlM Table.addPart []

end DeviceSchema.Toml
