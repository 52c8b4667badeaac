import Mathlib.Data.List.TakeWhile
import DeviceSchema.Proofs.Token.Layout
import DeviceSchema.Token.Expression

/-! # Streams that hold pieces

Reading from a stream moves through lines and columns; whoever reads sees only pieces.  A
stream **holds** some pieces when they are what is left to read, with the first one handed
back perhaps (`Stream.Holds`).  The stream at the start of a layout holds the pieces of the
layout, and each way to read or to look ahead is described here by pieces alone: what it
gives depends on the pieces only, and afterwards the stream holds what is left of them.

A token is the first word of a piece.  For a plain word that is all of it.  The first word
of a text in quotes begins with the quote, and the stream is then inside the text, from
where only handing back leads out.
-/
namespace DeviceSchema.Token
open Text

/-- The first word of a piece, which is all that is seen of it by looking ahead. -/
def Piece.first (p : Piece) : String := String.ofList (firstWord p.spelling)

/-- The cursor stands on the first character of a piece that others follow. -/
structure Cursor.At (c : Cursor) (p : Piece) (ps : List Piece) : Prop where
  wellFormed : p.WellFormed
  rest : ∃ rest, c.rest = p.spelling ++ rest ∧ Parted rest ∧
    Spread ps (rest :: c.below.map Line.text)

namespace Stream

/-- No token was handed back, and the lines ahead are layouts of some pieces. -/
inductive Rests : Stream → List Piece → Prop
  | above {lines : List Line} {line : Nat} {ps : List Piece}
      (h : Spread ps (lines.map Line.text)) : Rests ⟨none, lines, line, none⟩ ps
  | inside {c : Cursor} {line : Nat} {ps : List Piece}
      (h : Spread ps (c.rest :: c.below.map Line.text)) : Rests ⟨some c, c.below, line, none⟩ ps

/-- The stream behind the token at a cursor. -/
def behind (c : Cursor) (line : Nat) : Stream where
  cursor := some (c.skip (ofCursor c).text.length)
  ahead := c.below
  line := line
  handedBack := none

/-- Some pieces are what is left to read; the first word of the first one may have been
handed back. -/
inductive Holds : Stream → List Piece → Prop
  | fresh {s : Stream} {ps : List Piece} (h : Rests s ps) : Holds s ps
  | back {c : Cursor} {line : Nat} {p : Piece} {ps : List Piece} (h : c.At p ps) :
      Holds { behind c line with handedBack := some (ofCursor c) } (p :: ps)

end Stream

section Words
variable {p : Piece} {ps : List Piece} {front rest : List Char}

theorem spread_nil : Spread ps [] ↔ ps = [] := by
  constructor
  · intro h
    cases h
    rfl
  · rintro rfl
    exact .nil

theorem spread_cons {line : List Char} {below : List (List Char)} :
    Spread ps (line :: below) ↔ ∃ a b, ps = a ++ b ∧ Layout a line ∧ Spread b below := by
  constructor
  · intro h
    cases h with
    | cons h hbelow => exact ⟨_, _, rfl, h, hbelow⟩
  · rintro ⟨a, b, rfl, h, hbelow⟩
    exact .cons h hbelow

/-- A piece that is followed by a layout on its line. -/
theorem Spread.piece {line : List Char} {below : List (List Char)} (hp : p.WellFormed)
    (hparted : Parted line) (h : Spread ps (line :: below)) :
    Spread (p :: ps) ((p.spelling ++ line) :: below) := by
  obtain ⟨a, b, rfl, hline, hbelow⟩ := spread_cons.mp h
  exact .cons (.piece hp hparted hline) hbelow

theorem Layout.skipBlanks_nil (h : Layout [] front) : skipBlanks front = [] := by
  generalize hps : ([] : List Piece) = ps at h
  induction h with
  | nil => rfl
  | blank hc h ih =>
    rw [skipBlanks, List.dropWhile_cons_of_pos hc]
    exact ih hps
  | piece => cases hps

theorem Layout.skipBlanks_cons (h : Layout (p :: ps) front) :
    ∃ rest, skipBlanks front = p.spelling ++ rest ∧ Parted rest ∧ Layout ps rest ∧
      p.WellFormed := by
  generalize hps : p :: ps = pieces at h
  induction h with
  | nil => cases hps
  | blank hc h ih =>
    rw [skipBlanks, List.dropWhile_cons_of_pos hc]
    exact ih hps
  | piece hp hparted h =>
    cases hps
    refine ⟨_, ?_, hparted, h, hp⟩
    obtain ⟨c, more, hspelling, hc, -⟩ := Piece.exists_spelling hp
    rw [hspelling, List.cons_append, skipBlanks, List.dropWhile_cons_of_neg (by simp [hc])]

/-- No word goes on behind a text that is parted from it. -/
theorem firstWord_append_parted (h : Parted rest) : firstWord (front ++ rest) = firstWord front := by
  have hrest : firstWord rest = [] := by
    cases rest with
    | nil => rfl
    | cons c rest => simp [firstWord, h c rfl]
  unfold firstWord at hrest ⊢
  rw [List.takeWhile_append]
  split
  · rename_i hlength
    rw [hrest, List.append_nil]
    exact ((List.takeWhile_prefix _).eq_of_length hlength).symm
  · rfl

theorem Piece.first_plain {word : List Char} (h : (plain word).WellFormed) :
    (plain word).first = String.ofList word := by
  have hword : firstWord word = word := by
    refine List.takeWhile_eq_self_iff.mpr fun c hc => ?_
    simp [h.2.1 c hc]
  rw [first, spelling, hword]

/-- The first word of a piece begins as the piece does. -/
theorem Piece.head?_first (h : p.WellFormed) : p.first.toList.head? = p.spelling.head? := by
  obtain ⟨c, rest, hspelling, hc, -⟩ := exists_spelling h
  rw [first, String.toList_ofList, hspelling, firstWord,
    List.takeWhile_cons_of_pos (by simp [hc])]
  rfl

theorem Cursor.At.text {c : Cursor} (h : c.At p ps) : (ofCursor c).text = p.first := by
  obtain ⟨rest, hrest, hparted, -⟩ := h.rest
  rw [ofCursor, hrest, firstWord_append_parted hparted, Piece.first]

theorem Cursor.At.spread {c : Cursor} (h : c.At p ps) :
    Spread (p :: ps) (c.rest :: c.below.map Line.text) := by
  obtain ⟨rest, hrest, hparted, hspread⟩ := h.rest
  rw [hrest]
  exact hspread.piece h.wellFormed hparted

/-- The word after a cursor, if a piece begins on the rest of the line. -/
theorem Cursor.word?_layout {c : Cursor} (h : Layout ps c.rest) :
    match ps with
    | [] => c.word? = none
    | p :: ps => ∃ c' rest, c.word? = some c' ∧ c'.below = c.below ∧
        c'.rest = p.spelling ++ rest ∧ Parted rest ∧ Layout ps rest ∧ p.WellFormed := by
  cases ps with
  | nil =>
    dsimp only
    rw [word?, h.skipBlanks_nil]
    rfl
  | cons p ps =>
    obtain ⟨rest, hrest, hparted, hlayout, hp⟩ := h.skipBlanks_cons
    have hne : (p.spelling ++ rest).isEmpty = false := by
      obtain ⟨d, more, hspelling, -⟩ := Piece.exists_spelling hp
      rw [hspelling]
      rfl
    refine ⟨{ c with
      column := c.column + (c.rest.takeWhile isBlank).length
      rest := p.spelling ++ rest }, rest, ?_, rfl, rfl, hparted, hlayout, hp⟩
    rw [word?, hrest, hne, if_neg (by decide)]

end Words

section Quotes
variable {front : List Char}

theorem takeWhile_quote (h : '"' ∉ front) (tail : List Char) :
    (front ++ '"' :: tail).takeWhile (· ≠ '"') = front := by
  rw [List.takeWhile_append_of_pos (by simpa using fun c hc (he : c = '"') => h (he ▸ hc))]
  simp

theorem dropWhile_quote (h : '"' ∉ front) (tail : List Char) :
    (front ++ '"' :: tail).dropWhile (· ≠ '"') = '"' :: tail := by
  rw [List.dropWhile_append_of_pos (by simpa using fun c hc (he : c = '"') => h (he ▸ hc))]
  simp

/-- What stands between the first two quotes of the rest of the line is read. -/
theorem Cursor.quoted?_of_rest {c : Cursor} {lead body rest : List Char}
    (hrest : c.rest = lead ++ '"' :: (body ++ '"' :: rest)) (hlead : '"' ∉ lead)
    (hbody : '"' ∉ body) : c.quoted? =
      some (body, ⟨c.line, c.column + lead.length + body.length + 2, rest, c.below⟩) := by
  rw [Cursor.quoted?, hrest, dropWhile_quote hlead, takeWhile_quote hlead]
  dsimp only
  rw [dropWhile_quote hbody, takeWhile_quote hbody]

end Quotes

namespace Stream
variable {s : Stream} {p : Piece} {ps : List Piece} {c : Cursor} {line : Nat}

theorem enterLines_nil {lines : List Line} (h : Spread [] (lines.map Line.text)) (line : Nat) :
    ∃ last, enterLines line lines = (none, last, []) := by
  induction lines generalizing line with
  | nil => exact ⟨line, rfl⟩
  | cons next below ih =>
    obtain ⟨a, b, hps, hline, hbelow⟩ := spread_cons.mp h
    obtain ⟨rfl, rfl⟩ := List.nil_eq_append_iff.mp hps
    have hword : (Cursor.atLine next below).word? = none :=
      Cursor.word?_layout (c := Cursor.atLine next below) hline
    rw [enterLines, hword]
    exact ih hbelow next.number

theorem enterLines_cons {lines : List Line} (h : Spread (p :: ps) (lines.map Line.text))
    (line : Nat) : ∃ c last, enterLines line lines = (some c, last, c.below) ∧ c.At p ps := by
  induction lines generalizing line with
  | nil => cases spread_nil.mp h
  | cons next below ih =>
    obtain ⟨a, b, hps, hline, hbelow⟩ := spread_cons.mp h
    have hword := Cursor.word?_layout (c := Cursor.atLine next below) hline
    cases a with
    | nil =>
      -- The line is blank, so the piece is further down.
      subst hps
      rw [enterLines, hword]
      exact ih hbelow next.number
    | cons q a =>
      obtain ⟨rfl, rfl⟩ := List.cons.inj hps
      obtain ⟨c', rest, hc', hb, hrest, hparted, hlayout, hp⟩ := hword
      have hb' : c'.below = below := hb
      refine ⟨c', next.number, ?_, hp, rest, hrest, hparted, ?_⟩
      · rw [enterLines, hc', hb']
      · rw [hb']
        exact .cons hlayout hbelow

theorem Rests.seek_nil (h : Rests s []) : ∃ last, s.seek = (none, ⟨none, [], last, none⟩) := by
  cases h with
  | @above lines line _ h =>
    obtain ⟨last, hlast⟩ := enterLines_nil h line
    exact ⟨last, by simp [seek, hlast]⟩
  | @inside c line _ h =>
    obtain ⟨a, b, hps, hline, hbelow⟩ := spread_cons.mp h
    obtain ⟨rfl, rfl⟩ := List.nil_eq_append_iff.mp hps
    obtain ⟨last, hlast⟩ := enterLines_nil hbelow line
    have hword : c.word? = none := Cursor.word?_layout hline
    exact ⟨last, by simp [seek, hword, hlast]⟩

theorem Rests.seek_cons (h : Rests s (p :: ps)) :
    ∃ c line, s.seek = (some c, ⟨some c, c.below, line, none⟩) ∧ c.At p ps := by
  cases h with
  | @above lines line _ h =>
    obtain ⟨c, last, hlast, hat⟩ := enterLines_cons h line
    exact ⟨c, last, by simp [seek, hlast], hat⟩
  | @inside c line _ h =>
    obtain ⟨a, b, hps, hline, hbelow⟩ := spread_cons.mp h
    have hword := Cursor.word?_layout hline
    cases a with
    | nil =>
      subst hps
      obtain ⟨c', last, hlast, hat⟩ := enterLines_cons hbelow line
      have hnone : c.word? = none := hword
      exact ⟨c', last, by simp [seek, hnone, hlast], hat⟩
    | cons q a =>
      obtain ⟨rfl, rfl⟩ := List.cons.inj hps
      obtain ⟨c', rest, hc', hb, hrest, hparted, hlayout, hp⟩ := hword
      refine ⟨c', line, by simp [seek, hc', hb], hp, rest, hrest, hparted, ?_⟩
      rw [hb]
      exact .cons hlayout hbelow

/-! ## Tokens -/

theorem Holds.next_nil (h : Holds s []) : ∃ s', s.next = (none, s') ∧ Holds s' [] := by
  cases h with
  | fresh h =>
    obtain ⟨last, hseek⟩ := h.seek_nil
    refine ⟨⟨none, [], last, none⟩, ?_, .fresh (.above .nil)⟩
    have hnone : s.handedBack = none := by cases h <;> rfl
    rw [next, hnone, hseek]

/-- **The next token is the first word of the first piece.** -/
theorem Holds.next_cons (h : Holds s (p :: ps)) :
    ∃ c line, s.next = (some (ofCursor c), behind c line) ∧ c.At p ps := by
  cases h with
  | fresh h =>
    obtain ⟨c, line, hseek, hat⟩ := h.seek_cons
    refine ⟨c, line, ?_, hat⟩
    have hnone : s.handedBack = none := by cases h <;> rfl
    rw [next, hnone, hseek]
    rfl
  | @back c line _ _ hat => exact ⟨c, line, rfl, hat⟩

/-- Once all of a piece has been read, the stream holds those after it. -/
theorem holds_behind {word : List Char} (h : c.At (.plain word) ps) : Holds (behind c line) ps := by
  obtain ⟨rest, hrest, -, hspread⟩ := h.rest
  have htext := h.text
  rw [Piece.first_plain h.wellFormed] at htext
  have hlength : (ofCursor c).text.length = word.length := by
    rw [htext, String.length_ofList]
  refine .fresh (.inside (c := c.skip (ofCursor c).text.length) ?_)
  have hskip : (c.skip (ofCursor c).text.length).rest = rest := by
    rw [Cursor.skip, hlength, hrest]
    exact List.drop_left
  rw [hskip]
  exact hspread

/-- A token that is handed back makes the stream hold its piece again. -/
theorem handBack_behind (line : Nat) (h : c.At p ps) :
    ∃ s', (behind c line).handBack (ofCursor c) = .ok s' ∧ Holds s' (p :: ps) :=
  ⟨_, rfl, .back h⟩

theorem firstWordOf_spread {lines : List Line} (h : Spread ps (lines.map Line.text)) :
    firstWordOf lines = ps.head?.map Piece.first := by
  induction lines generalizing ps with
  | nil =>
    cases h
    rfl
  | cons next below ih =>
    obtain ⟨a, b, rfl, hline, hbelow⟩ := spread_cons.mp h
    rw [firstWordOf, List.findSome?_cons]
    cases a with
    | nil =>
      rw [hline.skipBlanks_nil]
      exact ih hbelow
    | cons p a =>
      obtain ⟨rest, hrest, hparted, -, hp⟩ := hline.skipBlanks_cons
      obtain ⟨d, more, hspelling, hd, -⟩ := Piece.exists_spelling hp
      have hne : (firstWord p.spelling).isEmpty = false := by
        rw [hspelling, firstWord, List.takeWhile_cons_of_pos (by simp [hd])]
        rfl
      rw [hrest, firstWord_append_parted hparted]
      simp [hne, Piece.first]

/-- **Looking ahead shows the first word of the first piece.** -/
theorem Holds.peek (h : Holds s ps) : s.peek = ps.head?.map Piece.first := by
  cases h with
  | back hat => exact congrArg some hat.text
  | fresh h =>
    cases h with
    | above h => exact firstWordOf_spread h
    | @inside c line _ h =>
      obtain ⟨a, b, rfl, hline, hbelow⟩ := spread_cons.mp h
      have hword := Cursor.word?_layout hline
      cases a with
      | nil =>
        have hnone : c.word? = none := hword
        simp only [Stream.peek, hnone, List.nil_append]
        exact firstWordOf_spread hbelow
      | cons p a =>
        obtain ⟨c', rest, hc', -, hrest, hparted, -, -⟩ := hword
        simp only [Stream.peek, hc', List.cons_append, List.head?_cons, Option.map_some,
          ofCursor, hrest, firstWord_append_parted hparted, Piece.first]

/-! ## Texts in quotes -/

theorem Holds.rewind (h : Holds s ps) : Rests s.rewind ps := by
  cases h with
  | fresh h =>
    cases h with
    | above h => exact .above h
    | inside h => exact .inside h
  | back hat => exact .inside hat.spread

/-- **A text in quotes is read as a whole.** -/
theorem Holds.nextQuoted {body : List Char} (h : Holds s (.quoted body :: ps)) :
    ∃ s', s.nextQuoted = (some (String.ofList body), s') ∧ Holds s' ps := by
  obtain ⟨c, line, hseek, hp, rest, hrest, -, hspread⟩ := h.rewind.seek_cons
  have hc : c.rest = [] ++ '"' :: (body ++ '"' :: rest) := by simp [hrest, Piece.spelling]
  have hquoted := Cursor.quoted?_of_rest hc List.not_mem_nil hp.1
  generalize c.column + ([] : List Char).length + body.length + 2 = column at hquoted
  refine ⟨⟨some { c with column, rest }, c.below, line, none⟩, ?_, ?_⟩
  · rw [Stream.nextQuoted, hseek]
    dsimp only
    rw [hquoted]
  · exact .fresh (.inside (c := { c with column, rest }) hspread)

theorem Holds.wellFormed (h : Holds s ps) : ∀ p ∈ ps, p.WellFormed := by
  cases h with
  | fresh h =>
    cases h with
    | above h => exact h.wellFormed
    | inside h => exact h.wellFormed
  | back hat => exact hat.spread.wellFormed

/-! ## What is built from tokens -/

/-- The first of some pieces begins with `c`. -/
def begins (c : Char) (ps : List Piece) : Bool := (ps.head?.bind fun p => p.spelling.head?) = some c

theorem Holds.peekStartsWith (h : Holds s ps) (c : Char) : s.peekStartsWith c = begins c ps := by
  rw [Stream.peekStartsWith, h.peek, begins]
  cases ps with
  | nil => rfl
  | cons p ps =>
    have hfirst := Piece.head?_first (h.wellFormed p List.mem_cons_self)
    simp only [List.head?_cons, Option.map_some, Option.bind_some, hfirst]
    rfl

theorem int32?_quoted (body : List Char) : int32? (Piece.quoted body).first.toList = none := by
  obtain ⟨rest, hrest⟩ : ∃ rest, (Piece.quoted body).first.toList = '"' :: rest := by
    rw [Piece.first, String.toList_ofList, Piece.spelling, List.cons_append, firstWord,
      List.takeWhile_cons_of_pos (by simp [isBlank_quote])]
    exact ⟨_, rfl⟩
  rw [hrest]
  rfl

/-- **An integer that is seen ahead can be read.** -/
theorem Holds.nextInt {value : Int} (h : Holds s ps) (hvalue : s.peekInt = some value) :
    ∃ p rest s', ps = p :: rest ∧ s.nextInt = (.ok value, s') ∧ Holds s' rest := by
  rw [peekInt, h.peek] at hvalue
  cases ps with
  | nil => cases hvalue
  | cons p rest =>
    have hint : int32? p.first.toList = some value := hvalue
    cases p with
    | quoted body =>
      rw [int32?_quoted] at hint
      cases hint
    | plain word =>
      obtain ⟨c, line, hnext, hat⟩ := h.next_cons
      refine ⟨_, rest, behind c line, rfl, ?_, holds_behind hat⟩
      rw [Stream.nextInt, hnext]
      simp only [Option.map_some, Option.getD_some, hat.text, hint]

theorem begins_quote_plain {word : List Char} (h : (Piece.plain word).WellFormed) :
    begins '"' (.plain word :: ps) = false := decide_eq_false h.2.2.1

/-! ## Joining tokens

A turn of joining reads a token, and then either ends, without a look at the stream, or goes on. -/

/-- What joining ends with when `text` is joined, if it ends there. -/
def verdict? (text : String) : Option (Except Arithmetic.Failure String) :=
  if text.length > Ceiling.expressionLength then some (.error (.tooLong Ceiling.expressionLength))
  else if openParens text.toList = 0 then some (.ok text)
  else if openParens text.toList < 0 then some (.error .missingOpen)
  else none

theorem verdict?_eq_none {text : String} : verdict? text = none ↔
    text.length ≤ Ceiling.expressionLength ∧ 0 < openParens text.toList := by
  unfold verdict?
  split
  · simp only [reduceCtorEq, false_iff]
    omega
  split
  · simp only [reduceCtorEq, false_iff]
    omega
  split
  · simp only [reduceCtorEq, false_iff]
    omega
  · simp only [true_iff]
    omega

theorem verdict?_closed {text : String} (hfits : text.length ≤ Ceiling.expressionLength)
    (hzero : openParens text.toList = 0) : verdict? text = some (.ok text) := by
  rw [verdict?, if_neg (by omega), if_pos hzero]

theorem verdict?_tooLong {text : String} (h : Ceiling.expressionLength < text.length) :
    verdict? text = some (.error (.tooLong Ceiling.expressionLength)) := if_pos h

section Turns
variable {s' : Stream} {text : String} {token : Token}

theorem gather_quote (hquote : (decide (text.length > 0) && s.peekStartsWith '"') = true)
    (tokens : Nat) : s.gather (tokens + 1) text = (.error .missingClose, s) := by
  rw [gather, if_pos hquote]

theorem gather_none (hquote : (decide (text.length > 0) && s.peekStartsWith '"') = false)
    (hnext : s.next = (none, s')) (tokens : Nat) :
    s.gather (tokens + 1) text = (.error .missingClose, s') := by
  rw [gather, hquote, if_neg Bool.false_ne_true, hnext]

/-- Behind a token, joining ends or goes on. -/
theorem gather_token (hquote : (decide (text.length > 0) && s.peekStartsWith '"') = false)
    (hnext : s.next = (some token, s')) (tokens : Nat) : s.gather (tokens + 1) text =
      match verdict? (text ++ token.text) with
      | some result => (result, s')
      | none => s'.gather tokens (text ++ token.text) := by
  rw [gather, hquote, if_neg Bool.false_ne_true, hnext]
  dsimp only
  unfold verdict?
  split
  · rfl
  split
  · rfl
  split <;> rfl

end Turns

/-- Joining goes on behind a plain word. -/
theorem Holds.gather_plain {word : List Char} {rest : List Piece}
    (h : Holds s (.plain word :: rest)) (tokens : Nat) (text : String) :
    ∃ s', Holds s' rest ∧ s.gather (tokens + 1) text =
      match verdict? (text ++ String.ofList word) with
      | some result => (result, s')
      | none => s'.gather tokens (text ++ String.ofList word) := by
  obtain ⟨c, line, hnext, hat⟩ := h.next_cons
  have hsees : s.peekStartsWith '"' = false := by
    rw [h.peekStartsWith, begins_quote_plain hat.wellFormed]
  have hword : (ofCursor c).text = String.ofList word := by
    rw [hat.text, Piece.first_plain hat.wellFormed]
  refine ⟨behind c line, holds_behind hat, ?_⟩
  rw [gather_token (by rw [hsees, Bool.and_false]) hnext, hword]

/-- **What joining tokens gives depends on the pieces only**, as it stops before a text in
quotes. -/
theorem gather_holds (tokens : Nat) (text : String) {ps : List Piece}
    (h : 0 < text.length ∨ begins '"' ps = false) :
    ∃ result rest, ∀ s, Holds s ps → ∃ s', s.gather tokens text = (result, s') ∧
      ∀ joined, result = .ok joined → Holds s' rest := by
  induction tokens generalizing text ps with
  | zero => exact ⟨_, [], fun s hs => ⟨s, rfl, fun _ he => by cases he⟩⟩
  | succ tokens ih =>
    cases ps with
    | nil =>
      refine ⟨.error .missingClose, [], fun s hs => ?_⟩
      obtain ⟨s', hnext, -⟩ := hs.next_nil
      have hsees : s.peekStartsWith '"' = false := hs.peekStartsWith '"'
      exact ⟨s', gather_none (by rw [hsees, Bool.and_false]) hnext tokens, fun _ he => by cases he⟩
    | cons p rest =>
      cases p with
      | quoted body =>
        have hpos : 0 < text.length := h.resolve_right (by simp [begins, Piece.spelling])
        refine ⟨.error .missingClose, [], fun s hs => ⟨s, ?_, fun _ he => by cases he⟩⟩
        have hsees : s.peekStartsWith '"' = true := hs.peekStartsWith '"'
        exact gather_quote (by simp [hpos, hsees]) tokens
      | plain word =>
        cases hverdict : verdict? (text ++ String.ofList word) with
        | some result =>
          refine ⟨result, rest, fun s hs => ?_⟩
          obtain ⟨s', hs', hgather⟩ := hs.gather_plain tokens text
          exact ⟨s', by rw [hgather, hverdict], fun _ _ => hs'⟩
        | none =>
          -- A parenthesis is open, so there is some text and joining goes on.
          have hpos : 0 < (text ++ String.ofList word).length := by
            refine Nat.pos_of_ne_zero fun hzero => ?_
            have hopen := (verdict?_eq_none.mp hverdict).2
            rw [String.length_eq_zero_iff.mp hzero] at hopen
            exact absurd hopen (by decide)
          obtain ⟨result, rest', hrec⟩ := ih (text ++ String.ofList word) (.inl hpos)
          refine ⟨result, rest', fun s hs => ?_⟩
          obtain ⟨s', hs', hgather⟩ := hs.gather_plain tokens text
          simp only [hgather, hverdict]
          exact hrec s' hs'

/-! ## The start of a layout -/

/-- No word of some pieces is longer than a word may be. -/
def Short (ps : List Piece) : Prop :=
  ∀ p ∈ ps, ∀ word ∈ words p.spelling, word.length ≤ Ceiling.wordLength

instance (ps : List Piece) : Decidable (Short ps) :=
  inferInstanceAs (Decidable (∀ p ∈ ps, ∀ word ∈ words p.spelling, word.length ≤ _))

theorem numberedLines_text (source : String) :
    (numberedLines source).map Line.text = lines source.toList := by
  rw [numberedLines, List.map_map]
  exact List.zipIdx_map_fst 0 _

theorem overlongWord?_eq_none {lines : List Line} :
    overlongWord? lines = none ↔
      ∀ word ∈ (lines.map Line.text).flatMap words, word.length ≤ Ceiling.wordLength := by
  simp only [overlongWord?, List.findSome?_eq_none_iff, Option.map_eq_none_iff,
    List.find?_eq_none, List.mem_map, List.mem_flatMap]
  constructor
  · rintro hall word ⟨_, ⟨line, hline, rfl⟩, hword⟩
    simpa using hall line hline word.length ⟨word, hword, rfl⟩
  · rintro hall line hline _ ⟨word, hword, rfl⟩
    simpa using hall word ⟨line.text, ⟨line, hline, rfl⟩, hword⟩

/-- **A layout is a source if and only if its pieces are short; what the stream then holds
and how much of it is unread depends on the pieces only.** -/
theorem ofSource_layout {source : String} (h : Layout ps source.toList) :
    ((∃ s, ofSource source = .ok s) ↔ Short ps) ∧
      ∀ s, ofSource source = .ok s → Holds s ps ∧ s.unread = ink ps := by
  have hspread := h.spread
  rw [← numberedLines_text] at hspread
  have hshort : overlongWord? (numberedLines source) = none ↔ Short ps := by
    rw [overlongWord?_eq_none, hspread.words]
    simp only [List.mem_flatMap, Short]
    constructor
    · exact fun hall p hp word hword => hall word ⟨p, hp, hword⟩
    · rintro hall word ⟨p, hp, hword⟩
      exact hall p hp word hword
  have hunread : (⟨none, numberedLines source, 0, none⟩ : Stream).unread = ink ps := by
    rw [← hspread.inked, inked, List.countP_flatten, List.map_map, List.sum_eq_foldl,
      List.foldl_map]
    simp [unread, inked]
  unfold ofSource
  dsimp only
  cases hlong : overlongWord? (numberedLines source) with
  | some found =>
    refine ⟨⟨fun hs => ?_, fun hall => ?_⟩, fun s hs => by cases hs⟩
    · obtain ⟨s, hs⟩ := hs
      cases hs
    rw [hshort.mpr hall] at hlong
    cases hlong
  | none =>
    refine ⟨⟨fun _ => hshort.mp hlong, fun _ => ⟨_, rfl⟩⟩, fun s hs => ?_⟩
    cases hs
    exact ⟨.fresh (.above hspread), hunread⟩

end Stream
end DeviceSchema.Token
