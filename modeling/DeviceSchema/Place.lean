import DeviceSchema.Json

/-! # Positions and spans

A **position** is a line and a column of a source text, both counted from one,
columns in characters.  A **span** runs from a position up to, and without,
another.
-/
namespace DeviceSchema

/-- A place in a source text. -/
structure Position where
  line : Nat
  column : Nat
deriving DecidableEq, Repr

namespace Position

/-- The first character of a text. -/
def start : Position := ⟨1, 1⟩

/-- No place: both counts are zero. -/
def nowhere : Position := ⟨0, 0⟩

/-- Text order: by line, then by column. -/
def before (p q : Position) : Bool :=
  p.line < q.line || (p.line == q.line && p.column < q.column)

/-- The position just past `text` when it starts at `p` and stays on its line. -/
def advance (p : Position) (text : String) : Position :=
  ⟨p.line, p.column + text.length⟩

/-- The earlier of two positions. -/
def min (p q : Position) : Position := if q.before p then q else p

/-- The later of two positions. -/
def max (p q : Position) : Position := if p.before q then q else p

/-- The position as `line:column`. -/
def render (p : Position) : String := toString p.line ++ ":" ++ toString p.column

def toJson (p : Position) : Json :=
  .object [("line", .count p.line), ("column", .count p.column)]

end Position

/-- A stretch of a source text. -/
structure Span where
  /-- The first position. -/
  start : Position
  /-- The position after the last. -/
  stop : Position
deriving DecidableEq, Repr

namespace Span

/-- The empty span at the start of a line. -/
def ofLine (line : Nat) : Span := ⟨⟨line, 1⟩, ⟨line, 1⟩⟩

/-- The smallest span that covers both. -/
def merge (a b : Span) : Span := ⟨a.start.min b.start, a.stop.max b.stop⟩

/-- Whether `p` lies in the span. -/
def contains (a : Span) (p : Position) : Bool :=
  !p.before a.start && p.before a.stop

/-- The span as `line:from-to`, or as two positions when it crosses lines. -/
def render (a : Span) : String :=
  if a.start.line = a.stop.line then
    toString a.start.line ++ ":" ++ toString a.start.column ++ "-" ++ toString a.stop.column
  else a.start.render ++ "-" ++ a.stop.render

def toJson (a : Span) : Json :=
  .object [("start", a.start.toJson), ("end", a.stop.toJson)]

end Span
end DeviceSchema
