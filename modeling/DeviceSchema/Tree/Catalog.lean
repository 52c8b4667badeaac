import DeviceSchema.Tree.Collection

/-! # Error catalogs

Errors of the device as a whole are numbered in three **catalogs** that follow
one another: fatal errors and other errors of the protocol, both given, and errors
that the description declares.
-/
namespace DeviceSchema

/-- Errors with consecutive numbers. -/
structure Catalog where
  /-- The number of the first entry. -/
  offset : Nat
  entries : List Notice
deriving DecidableEq, Repr

namespace Catalog

/-- The number after the last entry. -/
def stop (c : Catalog) : Nat := c.offset + c.entries.length

def contains (c : Catalog) (name : String) : Bool := c.entries.any (·.name = name)

/-- The number of the error called `name`. -/
def number? (c : Catalog) (name : String) : Option Nat :=
  (c.entries.findIdx? (·.name = name)).map (c.offset + ·)

/-- Puts an entry at the end. -/
def append (c : Catalog) (entry : Notice) : Catalog := { c with entries := c.entries ++ [entry] }

/-- Errors after which a device gives up a request. -/
def fatal : Catalog where
  offset := 1
  entries := [⟨"bad_command", "Bad command"⟩, ⟨"bad_descriptor", "Bad configuration"⟩,
    ⟨"bad_value", "Bad value"⟩]

/-- The other errors of the protocol. -/
def protocol : Catalog where
  offset := fatal.stop
  entries := [⟨"bad_value", "Bad value"⟩, ⟨"invalid_index", "Invalid index"⟩,
    ⟨"invalid_name", "Invalid name"⟩, ⟨"missing_name", "Missing name"⟩]

end Catalog

/-- The three catalogs. -/
structure Catalogs where
  fatal : Catalog := .fatal
  protocol : Catalog := .protocol
  /-- The errors that the description declares. -/
  declared : Catalog := ⟨Catalog.protocol.stop, []⟩
deriving DecidableEq, Repr

namespace Catalogs

/-- Whether an error of the protocol has this name. -/
def isProtocolError (c : Catalogs) (name : String) : Bool :=
  c.fatal.contains name || c.protocol.contains name

/-- Declares an error. -/
def declare (name : String) (description : Option String) : Changing Catalogs Unit := do
  let some description := description | throw .missingGlobalErrorDescription
  if (← get).isProtocolError name then throw (.protocolErrorName name)
  if (← get).declared.contains name then throw (.repeatedGlobalError name)
  modify fun c => { c with declared := c.declared.append ⟨name, description⟩ }

/-- The number of the first error of a group. -/
def groupErrorsOffset (c : Catalogs) : Nat := c.declared.stop

end Catalogs
end DeviceSchema
