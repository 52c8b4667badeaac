import DeviceSchema.Text.Fixed

/-! # JSON documents

The values of JSON and their texts.  The members of an object are written in the
order of their names, so a value has one compact and one indented text however
its members were put together.
-/
namespace DeviceSchema

/-- A JSON value. -/
inductive Json where
  | null
  | bool (value : Bool)
  | number (value : Int)
  /-- So many units of the last of so many decimal places. -/
  | decimal (units places : Nat)
  | text (value : String)
  | list (values : List Json)
  | object (members : List (String × Json))
deriving Repr

namespace Json

/-- A whole number without a sign. -/
def count (n : Nat) : Json := .number n

/-- A text, or null where there is none. -/
def text? (value : Option String) : Json := (value.map Json.text).getD .null

/-- A count, or null where there is none. -/
def count? (value : Option Nat) : Json := (value.map Json.count).getD .null

/-- A list of texts. -/
def texts (values : List String) : Json := .list (values.map .text)

/-- The digit of a value below sixteen. -/
def hexDigit (n : Nat) : Char := ("0123456789abcdef".toList[n]?).getD '0'

/-- A character as it stands in a quoted text: quotes, backslashes and control
characters below the space are escaped, by a letter where there is one. -/
def escaped (c : Char) : String :=
  if c = '"' then "\\\""
  else if c = '\\' then "\\\\"
  else if c = '\n' then "\\n"
  else if c = '\r' then "\\r"
  else if c = '\t' then "\\t"
  else if c = Char.ofNat 0x8 then "\\b"
  else if c = Char.ofNat 0xC then "\\f"
  else if c.toNat < 0x20 then
    "\\u00" ++ String.singleton (hexDigit (c.toNat / 16)) ++
      String.singleton (hexDigit (c.toNat % 16))
  else String.singleton c

/-- A text in quotes. -/
def quote (value : String) : String :=
  value.foldl (fun text c => text ++ escaped c) "\"" ++ "\""

/-- Members in the order of their names. -/
def byName {α : Type} (members : List (String × α)) : List (String × α) :=
  members.mergeSort fun a b => !(b.1 < a.1)

mutual

/-- The text of a value without blanks. -/
def compact : Json → String
  | null => "null"
  | bool value => if value then "true" else "false"
  | number value => toString value
  | decimal units places => Text.fixed units places
  | text value => quote value
  | list values => "[" ++ ",".intercalate (compactAll values) ++ "]"
  | object members =>
    "\x7b" ++ ",".intercalate ((byName (compactMembers members)).map fun (name, value) =>
      quote name ++ ":" ++ value) ++ "\x7d"

def compactAll : List Json → List String
  | [] => []
  | value :: values => compact value :: compactAll values

def compactMembers : List (String × Json) → List (String × String)
  | [] => []
  | (name, value) :: members => (name, compact value) :: compactMembers members

end

/-- The blanks at the start of a line of the indented text. -/
def margin (depth : Nat) : String := String.ofList (List.replicate (2 * depth) ' ')

/-- Puts items between brackets, one to a line. -/
def bracketed (opening closing : String) (depth : Nat) (items : List String) : String :=
  if items.isEmpty then opening ++ closing
  else
    opening ++ "\n" ++ ",\n".intercalate (items.map (margin (depth + 1) ++ ·)) ++ "\n" ++
      margin depth ++ closing

mutual

/-- The text of a value with one item to a line, two blanks for each depth. -/
def indented (depth : Nat) : Json → String
  | null => "null"
  | bool value => if value then "true" else "false"
  | number value => toString value
  | decimal units places => Text.fixed units places
  | text value => quote value
  | list values => bracketed "[" "]" depth (indentedAll (depth + 1) values)
  | object members =>
    bracketed "\x7b" "\x7d" depth
      ((byName (indentedMembers (depth + 1) members)).map fun (name, value) =>
        quote name ++ ": " ++ value)

def indentedAll (depth : Nat) : List Json → List String
  | [] => []
  | value :: values => indented depth value :: indentedAll depth values

def indentedMembers (depth : Nat) : List (String × Json) → List (String × String)
  | [] => []
  | (name, value) :: members => (name, indented depth value) :: indentedMembers depth members

end

end Json
end DeviceSchema
