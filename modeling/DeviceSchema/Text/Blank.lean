/-! # Blank characters and words

A character is **blank** when it has the Unicode property White_Space.  The
**words** of a text are its maximal runs of characters that are not blank; they
are what the description language separates its tokens by.  Trimming removes
blank characters from both ends.
-/
namespace DeviceSchema.Text

/-- The code points of White_Space above ASCII, as closed ranges. -/
def wideBlankRanges : List (Nat × Nat) :=
  [(0x85, 0x85), (0xA0, 0xA0), (0x1680, 0x1680), (0x2000, 0x200A), (0x2028, 0x2029),
    (0x202F, 0x202F), (0x205F, 0x205F), (0x3000, 0x3000)]

/-- Tab, line feed, vertical tab, form feed, carriage return and space in
ASCII, and the ranges above it. -/
def isBlank (c : Char) : Bool :=
  if c.toNat < 0x80 then c.toNat == 0x20 || (0x9 ≤ c.toNat && c.toNat ≤ 0xD)
  else wideBlankRanges.any fun (low, high) => low ≤ c.toNat && c.toNat ≤ high

/-- Every character that the core library calls whitespace is blank. -/
theorem isBlank_of_isWhitespace {c : Char} (h : c.isWhitespace = true) : isBlank c = true := by
  simp only [Char.isWhitespace, Bool.or_eq_true, decide_eq_true_eq] at h
  rcases h with ((rfl | rfl) | rfl) | rfl <;> decide

/-- The text before the first blank character. -/
def firstWord (text : List Char) : List Char :=
  text.takeWhile fun c => !isBlank c

/-- The text without its leading blanks. -/
def skipBlanks (text : List Char) : List Char :=
  text.dropWhile isBlank

theorem length_skipBlanks_le (text : List Char) : (skipBlanks text).length ≤ text.length := by
  simpa [skipBlanks] using (List.dropWhile_sublist isBlank).length_le

/-- All words of a text, in order. -/
def words (text : List Char) : List (List Char) :=
  (text.splitOnP isBlank).filter fun word => !word.isEmpty

/-- The text without the blanks at both ends. -/
def trim (text : String) : String :=
  String.ofList (skipBlanks (skipBlanks text.toList).reverse).reverse

end DeviceSchema.Text
