/-! # Keywords with fixed choices

The description language has six closed vocabularies: the two tables, the access
to a value, the types of values, the operations of a condition, the case rule of
a pattern and the capacity of a collection.  Each has a `word` for every choice,
and `ofWord?` reads one in any ASCII case.
-/
namespace DeviceSchema

/-- Who may use a value. -/
inductive Access where
  | readOnly
  | writeOnly
  | readWrite
deriving DecidableEq, Repr

namespace Access

def all : List Access := [readOnly, writeOnly, readWrite]

def word : Access → String
  | readOnly => "read_only"
  | writeOnly => "write_only"
  | readWrite => "read_write"

def ofWord? (text : String) : Option Access := all.find? (·.word = text.toLower)

end Access

/-- The two tables of a device: what is configured and what is reported. -/
inductive TableKind where
  | setting
  | state
deriving DecidableEq, Repr

namespace TableKind

def all : List TableKind := [setting, state]

def word : TableKind → String
  | setting => "setting"
  | state => "state"

def ofWord? (text : String) : Option TableKind := all.find? (·.word = text.toLower)

/-- The access of what stands directly in a group and declares none. -/
def defaultAccess : TableKind → Access
  | setting => .readWrite
  | state => .readOnly

end TableKind

/-- The types of values that the device protocol knows. -/
inductive ValueType where
  | string
  | multilineString
  | password
  | int32
  | uint32
  | hex32
  | prefixedHex32
  | float
  | enum
  | onOff
  | boolean
  | ipv4
  | fqdnv4
  | fqdnv6
  | list
  | macAddress
  | datetime
  | refEnum
deriving DecidableEq, Repr

namespace ValueType

def all : List ValueType :=
  [string, multilineString, password, int32, uint32, hex32, prefixedHex32, float, enum, onOff,
    boolean, ipv4, fqdnv4, fqdnv6, list, macAddress, datetime, refEnum]

def word : ValueType → String
  | string => "string"
  | multilineString => "multiline_string"
  | password => "password"
  | int32 => "int32"
  | uint32 => "uint32"
  | hex32 => "hex32"
  | prefixedHex32 => "0x_hex32"
  | float => "float"
  | enum => "enum"
  | onOff => "on_off"
  | boolean => "boolean"
  | ipv4 => "ipv4"
  | fqdnv4 => "fqdnv4"
  | fqdnv6 => "fqdnv6"
  | list => "list"
  | macAddress => "mac_addr"
  | datetime => "datetime"
  | refEnum => "ref_enum"

def ofWord? (text : String) : Option ValueType := all.find? (·.word = text.toLower)

/-- The number of the type in the device protocol. -/
def wireValue : ValueType → Nat
  | string => 1
  | multilineString => 2
  | password => 3
  | int32 => 4
  | uint32 => 5
  | hex32 => 6
  | prefixedHex32 => 7
  | float => 8
  | enum => 9
  | onOff => 11
  | boolean => 12
  | ipv4 => 13
  | fqdnv4 => 14
  | fqdnv6 => 15
  | list => 17
  | macAddress => 21
  | datetime => 22
  | refEnum => 23

/-- The types whose values are free text. -/
def isText : ValueType → Bool
  | string | multilineString | password => true
  | _ => false

/-- The types whose values are domain names. -/
def isDomainName : ValueType → Bool
  | fqdnv4 | fqdnv6 => true
  | _ => false

/-- The types whose values are integers of 32 bits. -/
def isInteger : ValueType → Bool
  | int32 | uint32 | hex32 | prefixedHex32 => true
  | _ => false

/-- Types whose bounds may be declared: of the value, or of its length. -/
def hasBounds (type : ValueType) : Bool :=
  type.isText || type.isDomainName || type.isInteger || type = float

/-- Types whose length has to be bounded where it can be written. -/
def needsMax (type : ValueType) : Bool := type.isText || type.isDomainName

end ValueType

/-- How a condition tests its source. -/
inductive Operation where
  | equals
  | regex
deriving DecidableEq, Repr

namespace Operation

def all : List Operation := [equals, regex]

def word : Operation → String
  | equals => "equals"
  | regex => "regex"

def ofWord? (text : String) : Option Operation := all.find? (·.word = text.toLower)

end Operation

/-- Whether a pattern heeds the case of letters. -/
inductive CaseRule where
  | heed
  | ignore
deriving DecidableEq, Repr

namespace CaseRule

def all : List CaseRule := [heed, ignore]

def word : CaseRule → String
  | heed => "match"
  | ignore => "ignore"

def ofWord? (text : String) : Option CaseRule := all.find? (·.word = text.toLower)

end CaseRule

/-- Whether the entries of a collection can be added and removed. -/
inductive Capacity where
  | fixed
  | flexible
deriving DecidableEq, Repr

namespace Capacity

def all : List Capacity := [fixed, flexible]

def word : Capacity → String
  | fixed => "fixed"
  | flexible => "variable"

def ofWord? (text : String) : Option Capacity := all.find? (·.word = text.toLower)

end Capacity
end DeviceSchema
