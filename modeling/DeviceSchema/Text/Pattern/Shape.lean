/-! # The size of a pattern

A pattern is turned into an automaton, so it may neither nest too deeply nor have
too many states.  A **shape** measures both for a part of a pattern, and the
operations on shapes follow the ways in which patterns are put together.
-/
namespace DeviceSchema.Text.Pattern

/-- How large a part of a pattern is. -/
structure Shape where
  /-- The depth to which parts nest. -/
  depth : Nat := 0
  /-- About how many states an automaton for the part has. -/
  states : Nat := 0
deriving DecidableEq, Repr

namespace Shape

/-- The greatest depth of a pattern. -/
def mostDepth : Nat := 250

/-- The greatest number of states of a pattern: so many fit in ten mebibytes. -/
def mostStates : Nat := 327680

/-- Whether a pattern of this shape can be used. -/
def isUsable (s : Shape) : Bool := s.depth ≤ mostDepth && s.states ≤ mostStates

/-- Two parts side by side. -/
def beside (a b : Shape) : Shape := ⟨max a.depth b.depth, a.states + b.states⟩

/-- A part inside another. -/
def deeper (s : Shape) : Shape := { s with depth := s.depth + 1 }

/-- A part with more states. -/
def larger (s : Shape) (states : Nat) : Shape := { s with states := s.states + states }

end Shape

/-- How often a part is repeated. -/
structure Repetition where
  least : Nat
  /-- The greatest number of times, if there is one. -/
  most : Option Nat
deriving DecidableEq, Repr

namespace Repetition

/-- Whether some number of times satisfies it. -/
def isPossible (r : Repetition) : Bool :=
  match r.most with
  | some most => r.least ≤ most
  | none => true

/-- The shape of a repeated part: an automaton has a copy of the part for each time
that is counted, and a branch for each that may be left out.  A part that matches
nothing but the empty text is needed only once. -/
def shape (r : Repetition) (s : Shape) : Shape :=
  let states :=
    if s.states = 0 then 1
    else match r.most with
      | some most => most * s.states + (most - r.least)
      | none => max r.least 1 * s.states + 1
  ⟨s.depth + 1, states⟩

end Repetition

/-- Parts side by side, of which the last one can still be repeated. -/
structure Parts where
  count : Nat := 0
  /-- The shape of all parts but the last. -/
  before : Shape := {}
  last : Shape := {}
  /-- Whether there is a last part that may be repeated. -/
  repeatable : Bool := false
deriving DecidableEq, Repr

namespace Parts

/-- Adds a part that may be repeated. -/
def add (p : Parts) (s : Shape) : Parts := ⟨p.count + 1, p.before.beside p.last, s, true⟩

/-- Adds a part that stands for nothing. -/
def addMark (p : Parts) : Parts := { p.add {} with repeatable := false }

/-- Repeats the last part. -/
def repeatLast (p : Parts) (r : Repetition) : Option Parts :=
  if p.repeatable && r.isPossible then some { p with last := r.shape p.last } else none

/-- The shape of all parts; two or more nest in what joins them. -/
def shape (p : Parts) : Shape :=
  let all := p.before.beside p.last
  if p.count ≤ 1 then all else all.deeper

end Parts
end DeviceSchema.Text.Pattern
