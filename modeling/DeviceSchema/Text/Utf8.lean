/-! # UTF-8

A text in UTF-8 is a sequence of well-formed groups of one to four bytes.  The
lead byte of a group says how long it is and which second bytes are allowed, so
that no character has two forms and none is a surrogate or out of range.
-/
namespace DeviceSchema.Text.Utf8

/-- The bytes that may follow a lead byte: the range of the second and how many
come after that. -/
structure Tail where
  low : UInt8
  high : UInt8
  more : Nat

/-- What has to follow a lead byte; nothing follows an ASCII byte. -/
def tail? (lead : UInt8) : Option (Option Tail) :=
  if lead < 0x80 then some none
  else if lead < 0xC2 then none
  else if lead < 0xE0 then some (some ⟨0x80, 0xBF, 0⟩)
  else if lead = 0xE0 then some (some ⟨0xA0, 0xBF, 1⟩)
  else if lead = 0xED then some (some ⟨0x80, 0x9F, 1⟩)
  else if lead < 0xF0 then some (some ⟨0x80, 0xBF, 1⟩)
  else if lead = 0xF0 then some (some ⟨0x90, 0xBF, 2⟩)
  else if lead < 0xF4 then some (some ⟨0x80, 0xBF, 2⟩)
  else if lead = 0xF4 then some (some ⟨0x80, 0x8F, 2⟩)
  else none

/-- Whether the byte at a place lies in a range. -/
def byteIn (bytes : ByteArray) (place : Nat) (low high : UInt8) : Bool :=
  if h : place < bytes.size then low ≤ bytes[place] && bytes[place] ≤ high else false

/-- The length of the well-formed group at a place; zero if there is none. -/
def groupLength (bytes : ByteArray) (place : Nat) : Nat :=
  if h : place < bytes.size then
    match tail? bytes[place] with
    | none => 0
    | some none => 1
    | some (some tail) =>
      if byteIn bytes (place + 1) tail.low tail.high &&
          (List.range tail.more).all fun i => byteIn bytes (place + 2 + i) 0x80 0xBF
      then tail.more + 2 else 0
  else 0

theorem groupLength_eq_zero_of_size_le {bytes : ByteArray} {place : Nat}
    (h : bytes.size ≤ place) : groupLength bytes place = 0 := by
  simp [groupLength, Nat.not_lt.mpr h]

/-- The place of the first byte from `place` on that begins no well-formed group. -/
def validUpTo (bytes : ByteArray) (place : Nat) : Nat :=
  if _h : groupLength bytes place = 0 then place
  else validUpTo bytes (place + groupLength bytes place)
termination_by bytes.size - place
decreasing_by
  have : place < bytes.size := Nat.lt_of_not_le fun le => _h (groupLength_eq_zero_of_size_le le)
  omega

/-- The text of bytes of which each is the code point of a character. -/
def latin1 (bytes : ByteArray) : String :=
  String.ofList (bytes.toList.map fun b => Char.ofNat b.toNat)

end DeviceSchema.Text.Utf8
