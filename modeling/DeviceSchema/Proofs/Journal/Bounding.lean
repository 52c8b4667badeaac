import DeviceSchema.Journal.Event

/-! # Where a long message is cut

A log cuts a long message at a byte, which may lie inside a character, and so it moves the cut
back to a boundary of characters.  A step back over a byte that is no boundary does not change
which boundary is the **nearest** (`posLE_succ`).  By induction on the byte, the search finds the
nearest boundary, in as many steps as that is away (`boundary?_eq`).  A boundary before the cut
has its character beyond it, and a character takes at most four bytes, so that there are at most
three steps (`le_posLE_add_three`).  What lies in front of the nearest boundary is the **longest
front** of the text that fits (`isLongestFront_wholeBefore`).
-/
namespace DeviceSchema
open String

variable {text : String} {byte : Nat}

section Searching

theorem byteIdx_posLE_le (text : String) (byte : Nat) :
    (text.posLE ⟨byte⟩).offset.byteIdx ≤ byte :=
  Pos.Raw.le_iff.mp offset_posLE_le

/-- A byte that is no boundary has the same nearest boundary as the byte before it. -/
theorem posLE_succ (inside : ¬ Pos.Raw.IsValid text ⟨byte + 1⟩) :
    text.posLE ⟨byte + 1⟩ = text.posLE ⟨byte⟩ := by
  rw [posLE_eq_iff]
  constructor
  · exact Pos.Raw.le_iff.mpr (Nat.le_succ_of_le (byteIdx_posLE_le text byte))
  · intro place hplace
    have hne : place.offset.byteIdx ≠ byte + 1 := fun heq =>
      inside (Pos.Raw.ext_iff.mpr heq ▸ place.isValid)
    have hle : place.offset.byteIdx ≤ byte + 1 := Pos.Raw.le_iff.mp hplace
    have hbefore : place.offset.byteIdx ≤ byte := by omega
    rw [le_posLE_iff]
    exact Pos.Raw.le_iff.mpr hbefore

/-- **The search finds the nearest boundary, and every byte on its way is one step.** -/
theorem boundary?_eq (text : String) (byte : Nat) :
    boundary? text byte =
      some ⟨text.posLE ⟨byte⟩, byte - (text.posLE ⟨byte⟩).offset.byteIdx⟩ := by
  induction byte with
  | zero =>
    have start : Pos.Raw.IsValid text ⟨0⟩ := Pos.Raw.isValid_zero
    rw [boundary?_of_isValid start, posLE_eq_pos start, Nat.zero_sub]
  | succ byte ih =>
    by_cases between : Pos.Raw.IsValid text ⟨byte + 1⟩
    case pos =>
      rw [boundary?_of_isValid between, posLE_eq_pos between, offset_pos, Nat.sub_self]
    case neg =>
      rw [boundary?_succ between, ih, posLE_succ between, Option.map_some, Boundary.further,
        Nat.succ_sub (byteIdx_posLE_le text byte)]

/-- The nearest boundary is at most three bytes away: the character that follows it ends beyond
the byte, and takes at most four. -/
theorem le_posLE_add_three (within : byte ≤ text.utf8ByteSize) :
    byte ≤ (text.posLE ⟨byte⟩).offset.byteIdx + 3 := by
  by_cases hend : text.posLE ⟨byte⟩ = text.endPos
  case pos =>
    rw [hend]
    exact Nat.le_add_right_of_le within
  case neg =>
    have hfour : ((text.posLE ⟨byte⟩).get hend).utf8Size ≤ 4 := Char.utf8Size_le_four _
    have hbeyond : byte < ((text.posLE ⟨byte⟩).next hend).offset.byteIdx :=
      Pos.Raw.lt_iff.mp (posLE_lt_iff.mp Pos.lt_next)
    rw [Pos.byteIdx_offset_next] at hbeyond
    omega

/-- Three steps are needed from the last byte of a character of four bytes. -/
example : (boundary? "a😀" 4).map Boundary.steps = some 3 := by decide

end Searching

section Fronts

/-- `front` is the longest of the fronts of a text, in whole characters, that have at most so many
bytes: every other one is a front of it. -/
structure IsLongestFront (text : String) (bytes : Nat) (front : String) : Prop where
  begins : ∃ rest, text = front ++ rest
  fits : front.utf8ByteSize ≤ bytes
  longest : ∀ other rest, text = other ++ rest → other.utf8ByteSize ≤ bytes →
    ∃ more, front = other ++ more

theorem wholeBefore_eq (text : String) (byte : Nat) :
    wholeBefore text byte = (text.sliceTo (text.posLE ⟨byte⟩)).copy := by
  simp only [wholeBefore, boundary?_eq, Option.get_some]

theorem splits_wholeBefore (text : String) (byte : Nat) :
    (text.posLE ⟨byte⟩).Splits (wholeBefore text byte) (text.sliceFrom (text.posLE ⟨byte⟩)).copy :=
  wholeBefore_eq text byte ▸ (text.posLE ⟨byte⟩).splits

theorem utf8ByteSize_wholeBefore (text : String) (byte : Nat) :
    (wholeBefore text byte).utf8ByteSize = (text.posLE ⟨byte⟩).offset.byteIdx :=
  (congrArg Pos.Raw.byteIdx (splits_wholeBefore text byte).offset_eq_rawEndPos).symm

theorem isLongestFront_wholeBefore (text : String) (byte : Nat) :
    IsLongestFront text byte (wholeBefore text byte) where
  begins := ⟨_, (splits_wholeBefore text byte).eq_append⟩
  fits := utf8ByteSize_wholeBefore text byte ▸ byteIdx_posLE_le text byte
  longest := by
    intro other rest happend hfits
    have hother : (Pos.ofEqAppend happend).Splits other rest := Pos.splits_ofEqAppend happend
    have hle : Pos.ofEqAppend happend ≤ text.posLE ⟨byte⟩ := by
      rw [le_posLE_iff, hother.offset_eq_rawEndPos]
      exact Pos.Raw.le_iff.mpr hfits
    have hfront := splits_wholeBefore text byte
    obtain ⟨more, hmore, -⟩ := (hother.le_iff_exists_eq_append hfront).mp hle
    exact ⟨more, hmore⟩

end Fronts

/-- **A message of at most 4096 bytes stays as it is.  Of a longer one, the longest front of at most
4096 bytes stays, with three points behind it; the search for its end begins at byte 4096, stays
within the message and makes at most three steps.** -/
theorem boundedMessage_cut (message : String) :
    (message.utf8ByteSize ≤ 4096 → boundedMessage message = message) ∧
    (4096 < message.utf8ByteSize → ∃ (front : String) (found : Boundary message),
      boundedMessage message = front ++ "..." ∧ IsLongestFront message 4096 front ∧
      boundary? message 4096 = some found ∧ found.steps ≤ 3 ∧
      front.utf8ByteSize + found.steps = 4096) := by
  constructor
  · intro hshort
    exact if_pos hshort
  · intro hlong
    refine ⟨wholeBefore message 4096, _, if_neg (Nat.not_le.mpr hlong),
      isLongestFront_wholeBefore message 4096, boundary?_eq message 4096, ?_, ?_⟩
    · have hnear := le_posLE_add_three (Nat.le_of_lt hlong)
      exact Nat.sub_le_iff_le_add'.mpr hnear
    · rw [utf8ByteSize_wholeBefore]
      exact Nat.add_sub_cancel' (byteIdx_posLE_le message 4096)

end DeviceSchema
