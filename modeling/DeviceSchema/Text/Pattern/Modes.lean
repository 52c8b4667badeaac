import DeviceSchema.Text.Blank

/-! # Modes of a pattern

Flags in a pattern change how the rest of a group is read.  Two of them matter for
whether a pattern is well formed: in **verbose** mode blanks and remarks between
the parts of a pattern mean nothing, and without **Unicode** mode a pattern is
about bytes, where nothing may match a part of a character.
-/
namespace DeviceSchema.Text.Pattern

/-- How a pattern is read. -/
structure Modes where
  verbose : Bool := false
  unicode : Bool := true
deriving DecidableEq, Repr

section Remarks

/-- Drops blanks, and remarks from a hash to the end of the line.  The first
argument tells whether a remark is under way. -/
def skipRemarks : Bool → List Char → List Char
  | _, [] => []
  | true, c :: rest => skipRemarks (c ≠ '\n') rest
  | false, c :: rest =>
    if isBlank c then skipRemarks false rest
    else if c = '#' then skipRemarks true rest
    else c :: rest

theorem length_skipRemarks_le (inRemark : Bool) (text : List Char) :
    (skipRemarks inRemark text).length ≤ text.length := by
  induction text generalizing inRemark with
  | nil => cases inRemark <;> simp [skipRemarks]
  | cons c rest ih =>
    cases inRemark with
    | true => simpa [skipRemarks] using Nat.le_succ_of_le (ih _)
    | false =>
      simp only [skipRemarks]
      split
      · exact Nat.le_succ_of_le (ih _)
      · split
        · exact Nat.le_succ_of_le (ih _)
        · exact Nat.le_refl _

/-- Drops what means nothing in the mode. -/
def Modes.skip (modes : Modes) (text : List Char) : List Char :=
  if modes.verbose then skipRemarks false text else text

theorem Modes.length_skip_le (modes : Modes) (text : List Char) :
    (modes.skip text).length ≤ text.length := by
  unfold Modes.skip
  split
  · exact length_skipRemarks_le false text
  · exact Nat.le_refl _

/-- The characters from the front of a text that satisfy `keep`, and the rest.
What means nothing is dropped after each of them. -/
def Modes.collect (modes : Modes) (keep : Char → Bool) : List Char → List Char × List Char
  | [] => ([], [])
  | c :: rest =>
    if keep c then
      let (kept, rest) := modes.collect keep (modes.skip rest)
      (c :: kept, rest)
    else ([], c :: rest)
termination_by text => text.length
decreasing_by
  have := modes.length_skip_le rest
  simp only [List.length_cons]
  omega

end Remarks

section Flags

/-- The letters of the flags. -/
def flagLetters : List Char := ['i', 'm', 's', 'U', 'u', 'R', 'x']

/-- A run of flags. -/
structure Flags where
  /-- The letters, each with whether it is switched on. -/
  letters : List (Char × Bool) := []
  /-- Whether a hyphen has been seen; flags after it are switched off. -/
  negated : Bool := false
  /-- Whether the hyphen came last. -/
  dangling : Bool := false

/-- Reads flags up to the colon or parenthesis after them.  No letter comes twice,
and a hyphen comes once and not last. -/
def readFlags : Flags → List Char → Option (Flags × Char × List Char)
  | _, [] => none
  | flags, c :: rest =>
    if c = ':' || c = ')' then if flags.dangling then none else some (flags, c, rest)
    else if c = '-' then
      if flags.negated then none
      else readFlags { flags with negated := true, dangling := true } rest
    else if flagLetters.contains c && (flags.letters.lookup c).isNone then
      readFlags
        { flags with letters := (c, !flags.negated) :: flags.letters, dangling := false } rest
    else none

/-- The modes after some flags. -/
def Modes.under (modes : Modes) (flags : Flags) : Modes where
  verbose := (flags.letters.lookup 'x').getD modes.verbose
  unicode := (flags.letters.lookup 'u').getD modes.unicode

end Flags
end DeviceSchema.Text.Pattern
