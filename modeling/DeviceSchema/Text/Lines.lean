/-! # Lines

A line ends at a line feed; one carriage return right before it belongs to the
line end.  Text after the last line feed is a line of its own unless it is
empty, so a text that ends with a line feed has no extra empty line, and the
empty text has no line.
-/
namespace DeviceSchema.Text

/-- Drops one carriage return from the end of a line that a line feed ended. -/
def withoutReturn (line : List Char) : List Char :=
  if line.getLast? = some '\r' then line.dropLast else line

/-- The lines of a text, without their ends.  Every piece between line feeds but
the last was ended by one. -/
def lines (text : List Char) : List (List Char) :=
  let pieces := text.splitOn '\n'
  pieces.dropLast.map withoutReturn ++ pieces.getLast?.toList.filter fun rest => !rest.isEmpty

/-- The number of lines of a text. -/
def lineCount (text : List Char) : Nat := (lines text).length

@[simp] theorem lines_nil : lines [] = [] := rfl

end DeviceSchema.Text
