/-! # Regular expressions

A small language of regular expressions over characters and a test whether one
describes a whole text.  `Matches` says what an expression describes; the test
follows the text with the finite set of expressions that may still describe the
rest of it, its **partial derivatives**.
-/
namespace DeviceSchema.Text

/-- A regular expression. -/
inductive Regular where
  /-- The empty text. -/
  | empty
  /-- One character of some ranges, whose ends belong to them. -/
  | oneOf (ranges : List (Char × Char))
  | seq (first second : Regular)
  | alt (left right : Regular)
  /-- Any number of repetitions. -/
  | star (body : Regular)
deriving DecidableEq, Repr

namespace Regular

section Building

/-- Exactly the character `c`. -/
def char (c : Char) : Regular := oneOf [(c, c)]

/-- The expressions one after another. -/
def sequence : List Regular → Regular
  | [] => empty
  | [r] => r
  | r :: rest => seq r (sequence rest)

/-- One of the expressions. -/
def choice (first : Regular) : List Regular → Regular
  | [] => first
  | r :: rest => alt first (choice r rest)

def optional (r : Regular) : Regular := alt r empty

/-- One or more repetitions. -/
def plus (r : Regular) : Regular := seq r (star r)

/-- The characters of a text in order. -/
def literal (text : String) : Regular := sequence (text.toList.map char)

end Building

/-- Whether a character lies in one of some ranges. -/
def inRanges (ranges : List (Char × Char)) (c : Char) : Bool :=
  ranges.any fun (low, high) => low ≤ c && c ≤ high

/-- The texts that an expression describes. -/
inductive Matches : Regular → List Char → Prop where
  | empty : Matches empty []
  | oneOf {ranges : List (Char × Char)} {c : Char} (h : inRanges ranges c = true) :
      Matches (oneOf ranges) [c]
  | seq {r s : Regular} {xs ys : List Char} (hr : Matches r xs) (hs : Matches s ys) :
      Matches (seq r s) (xs ++ ys)
  | left {r s : Regular} {xs : List Char} (h : Matches r xs) : Matches (alt r s) xs
  | right {r s : Regular} {xs : List Char} (h : Matches s xs) : Matches (alt r s) xs
  | stop {r : Regular} : Matches (star r) []
  | again {r : Regular} {xs ys : List Char} (hr : Matches r xs) (hs : Matches (star r) ys) :
      Matches (star r) (xs ++ ys)

section Test

/-- Whether an expression describes the empty text. -/
def nullable : Regular → Bool
  | empty => true
  | oneOf _ => false
  | seq r s => r.nullable && s.nullable
  | alt r s => r.nullable || s.nullable
  | star _ => true

/-- `r` and then `s`, without a needless empty expression. -/
def andThen : Regular → Regular → Regular
  | empty, s => s
  | r, s => seq r s

/-- Expressions that together describe what may follow `c` in a text that `r`
describes. -/
def partials (c : Char) : Regular → List Regular
  | empty => []
  | oneOf ranges => if inRanges ranges c then [empty] else []
  | seq r s =>
    (r.partials c).map (·.andThen s) ++ if r.nullable then s.partials c else []
  | alt r s => r.partials c ++ s.partials c
  | star r => (r.partials c).map (·.andThen (star r))

/-- The expressions that may describe the rest of a text after `c`. -/
def advance (states : List Regular) (c : Char) : List Regular :=
  (states.flatMap (partials c)).eraseDups

/-- Whether `r` describes the whole text. -/
def accepts (r : Regular) (text : List Char) : Bool :=
  (text.foldl advance [r]).any nullable

end Test
end Regular
end DeviceSchema.Text
