/-! # Limits

**Ceilings** bound what any run accepts: they keep one damaged file from taking
all memory.  `Limits` are chosen per run and follow from the device that the
description is for.
-/
namespace DeviceSchema

namespace Ceiling

/-- The bytes of a source file. -/
def fileBytes : Nat := 10485760

/-- The lines of a source file. -/
def fileLines : Nat := 100000

/-- The characters of a word of the source. -/
def wordLength : Nat := 4096

/-- The characters of a label. -/
def labelLength : Nat := 200

/-- The depth to which lists nest. -/
def listDepth : Nat := 32

/-- The characters of an integer expression. -/
def expressionLength : Nat := 1024

/-- The events that a log keeps. -/
def logEvents : Nat := 10000

/-- The bytes of a log message. -/
def messageBytes : Nat := 4096

end Ceiling

/-- The lengths that a device reserves. -/
structure Limits where
  /-- The characters of an attribute. -/
  attributeLength : Nat := 20
  /-- The characters of a name. -/
  nameLength : Nat := 40
  /-- The characters of a key that a user may add; zero when users add none.  It is a
  machine word, since the lengths of paths are added to it. -/
  keyLength : UInt64 := 0
deriving DecidableEq, Repr

namespace Limits

/-- Whether collections may be indexed by keys that users add. -/
def allowsKeys (limits : Limits) : Bool := limits.keyLength > 0

end Limits
end DeviceSchema
