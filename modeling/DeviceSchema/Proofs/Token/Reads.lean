import DeviceSchema.Proofs.Token.Holds

/-! # Streams over the lines of a source

A stream knows its place three times over: by its cursor, by the lines that it has not
entered and by a token that was handed back.  It **reads** some lines when the three agree
(`Stream.Reads`): the cursor stands on one of the lines, what the cursor has below it are
the lines not entered, and a token that was handed back is the word right before the
cursor.

The **tokens** of a place (`Cursor.tokens`, `Stream.tokens`) are read off the text alone,
word by word and line by line, and know nothing of looking ahead or of handing back.  Reading
a token takes the first of them (`Reads.next`), and a token that was just read can be handed
back, after which it is read again (`Behind.handBack`).
-/
namespace DeviceSchema.Token
open Text

namespace Cursor

/-- The cursor stands on the first character of a word. -/
def OnWord (c : Cursor) : Prop := ∃ d rest, c.rest = d :: rest ∧ isBlank d = false

/-- The cursor stands on one of some lines and has the others below it. -/
def IsIn (c : Cursor) (lines : List Line) : Prop :=
  ∃ above before, lines = above ++ ⟨c.line, before ++ c.rest⟩ :: c.below ∧
    c.column = before.length + 1

section Words
variable {c w : Cursor} {lines : List Line}

theorem OnWord.skipBlanks (h : c.OnWord) : Text.skipBlanks c.rest = c.rest := by
  obtain ⟨d, rest, hrest, hd⟩ := h
  rw [hrest, Text.skipBlanks, List.dropWhile_cons_of_neg (by simp [hd])]

theorem OnWord.word? (h : c.OnWord) : c.word? = some c := by
  have hskip := h.skipBlanks
  obtain ⟨d, rest, hrest, hd⟩ := h
  have hgap : c.rest.takeWhile isBlank = [] := by
    rw [hrest, List.takeWhile_cons_of_neg (by simp [hd])]
  rw [Cursor.word?, hskip, hgap, hrest]
  cases c
  subst hrest
  rfl

/-- Moving to a word passes over blanks of the same line. -/
theorem word?_eq_some (h : c.word? = some w) :
    w.OnWord ∧ w.line = c.line ∧ w.below = c.below ∧
      ∃ gap, c.rest = gap ++ w.rest ∧ w.column = c.column + gap.length ∧
        ∀ d ∈ gap, isBlank d = true := by
  unfold Cursor.word? at h
  dsimp only at h
  split at h
  · cases h
  · rename_i hne
    cases h
    refine ⟨?_, rfl, rfl, c.rest.takeWhile isBlank, ?_, rfl, fun d hd => ?_⟩
    · have hnil : Text.skipBlanks c.rest ≠ [] := by simpa using hne
      obtain ⟨d, rest, hrest⟩ := List.exists_cons_of_ne_nil hnil
      have hhead := List.head?_dropWhile_not isBlank c.rest
      rw [← Text.skipBlanks, hrest] at hhead
      exact ⟨d, rest, hrest, by simpa using hhead⟩
    · exact List.takeWhile_append_dropWhile.symm
    · exact List.mem_takeWhile_imp hd

theorem word?_eq_none (h : c.word? = none) : ∀ d ∈ c.rest, isBlank d = true := by
  unfold Cursor.word? at h
  dsimp only at h
  split at h
  · rename_i hempty
    have hnil : Text.skipBlanks c.rest = [] := by simpa using hempty
    exact List.dropWhile_eq_nil_iff.mp hnil
  · cases h

/-- A cursor that moves on along its line stays in the lines. -/
theorem IsIn.move {gap : List Char} (h : c.IsIn lines) (hline : w.line = c.line)
    (hbelow : w.below = c.below) (hrest : c.rest = gap ++ w.rest)
    (hcolumn : w.column = c.column + gap.length) : w.IsIn lines := by
  obtain ⟨above, before, hlines, hc⟩ := h
  refine ⟨above, before ++ gap, ?_, ?_⟩
  · rw [hlines, hrest, hline, hbelow, List.append_assoc]
  · rw [hcolumn, hc, List.length_append]
    omega

theorem IsIn.below_suffix (h : c.IsIn lines) : c.below <:+ lines := by
  obtain ⟨above, before, rfl, -⟩ := h
  exact (List.suffix_cons _ _).trans (List.suffix_append _ _)

theorem isIn_atLine {next : Line} {below : List Line} (h : next :: below <:+ lines) :
    (atLine next below).IsIn lines := by
  obtain ⟨above, rfl⟩ := h
  exact ⟨above, [], rfl, rfl⟩

end Words

section Skipping
variable {c : Cursor} {lines : List Line}

theorem length_ofCursor (c : Cursor) : (ofCursor c).text.length = (firstWord c.rest).length := by
  rw [ofCursor, String.length_ofList]

/-- The word at the cursor, and what is left of the line behind it. -/
theorem rest_eq (c : Cursor) :
    c.rest = firstWord c.rest ++ (c.skip (ofCursor c).text.length).rest := by
  obtain ⟨rest, hrest⟩ : firstWord c.rest <+: c.rest := List.takeWhile_prefix _
  have hdrop : c.rest.drop (firstWord c.rest).length = rest := by
    calc c.rest.drop (firstWord c.rest).length
        = (firstWord c.rest ++ rest).drop (firstWord c.rest).length := by rw [hrest]
      _ = rest := List.drop_left
  rw [skip, length_ofCursor, hdrop]
  exact hrest.symm

theorem OnWord.firstWord_ne_nil (h : c.OnWord) : firstWord c.rest ≠ [] := by
  obtain ⟨d, rest, hrest, hd⟩ := h
  rw [hrest, firstWord, List.takeWhile_cons_of_pos (by simp [hd])]
  exact List.cons_ne_nil _ _

theorem IsIn.skip (h : c.IsIn lines) : (c.skip (ofCursor c).text.length).IsIn lines :=
  h.move rfl rfl c.rest_eq (congrArg (c.column + ·) (length_ofCursor c))

end Skipping

/-! ## The tokens of a text -/

/-- The tokens of what is left of the line, in order. -/
def lineTokens (c : Cursor) : List Token :=
  match _h : c.word? with
  | none => []
  | some w => ofCursor w :: lineTokens (w.skip (ofCursor w).text.length)
termination_by c.rest.length
decreasing_by
  obtain ⟨hword, -, -, gap, hgap, -⟩ := word?_eq_some _h
  have hpos := List.length_pos_iff.mpr hword.firstWord_ne_nil
  have hrest := congrArg List.length w.rest_eq
  rw [hgap]
  rw [List.length_append] at hrest ⊢
  omega

end Cursor

/-- The tokens of some lines, in order. -/
def tokensOf : List Line → List Token
  | [] => []
  | next :: below => (Cursor.atLine next below).lineTokens ++ tokensOf below

namespace Cursor
variable {c w : Cursor}

/-- The tokens from a place on, down to the end of the source. -/
def tokens (c : Cursor) : List Token := c.lineTokens ++ tokensOf c.below

theorem lineTokens_eq_nil (h : c.word? = none) : c.lineTokens = [] := by
  rw [lineTokens]
  split
  · rfl
  · rename_i hw
    rw [h] at hw
    cases hw

theorem OnWord.lineTokens (h : c.OnWord) :
    c.lineTokens = ofCursor c :: (c.skip (ofCursor c).text.length).lineTokens := by
  rw [Cursor.lineTokens]
  split
  · rename_i hnone
    rw [h.word?] at hnone
    cases hnone
  · rename_i w hw
    obtain rfl : c = w := Option.some.inj (h.word?.symm.trans hw)
    rfl

/-- Blanks before a word do not matter. -/
theorem lineTokens_eq (h : c.word? = some w) : c.lineTokens = w.lineTokens := by
  rw [(word?_eq_some h).1.lineTokens, Cursor.lineTokens]
  split
  · rename_i hnone
    rw [h] at hnone
    cases hnone
  · rename_i w' hw
    obtain rfl : w = w' := Option.some.inj (h.symm.trans hw)
    rfl

/-- **The first token from a word on is this word, and the others are those behind it.** -/
theorem OnWord.tokens (h : c.OnWord) :
    c.tokens = ofCursor c :: (c.skip (ofCursor c).text.length).tokens := by
  rw [Cursor.tokens, h.lineTokens, List.cons_append]
  rfl

end Cursor

namespace Stream

/-- The tokens that are still to come. -/
def tokens (s : Stream) : List Token :=
  s.handedBack.toList ++ ((s.cursor.map Cursor.lineTokens).getD [] ++ tokensOf s.ahead)

/-- The stream is at a place of the lines: cursor, lines ahead and a token that was handed
back agree. -/
inductive Reads (lines : List Line) : Stream → Prop
  | between {cursor : Option Cursor} {ahead : List Line} {line : Nat} (hahead : ahead <:+ lines)
      (hcursor : ∀ c ∈ cursor, c.IsIn lines ∧ c.below = ahead) :
      Reads lines ⟨cursor, ahead, line, none⟩
  | back {c : Cursor} {line : Nat} (hword : c.OnWord) (hin : c.IsIn lines) :
      Reads lines { behind c line with handedBack := some (ofCursor c) }

/-- The stream is right behind the token. -/
inductive Behind (lines : List Line) : Token → Stream → Prop
  | intro {c : Cursor} {line : Nat} (hword : c.OnWord) (hin : c.IsIn lines) :
      Behind lines (ofCursor c) (behind c line)

section Moving
variable {lines : List Line} {s : Stream} {t : Token}

theorem Behind.reads (h : Behind lines t s) : Reads lines s := by
  cases h with
  | @intro c line hword hin =>
    refine .between hin.below_suffix fun d hd => ?_
    cases hd
    exact ⟨hin.skip, rfl⟩

theorem Behind.handedBack (h : Behind lines t s) : s.handedBack = none := by
  cases h
  rfl

/-- The token is a word of one of the lines, and stands there where it says. -/
def StandsIn (lines : List Line) (t : Token) : Prop :=
  t.start.OnWord ∧ t.start.IsIn lines ∧ t = ofCursor t.start

theorem Behind.standsIn (h : Behind lines t s) : StandsIn lines t := by
  cases h with
  | intro hword hin => exact ⟨hword, hin, rfl⟩

/-- **A token can be handed back right after it was read, and then it is read again, as if
nothing had happened.** -/
theorem Behind.handBack (h : Behind lines t s) :
    ∃ s', s.handBack t = .ok s' ∧ Reads lines s' ∧ s'.next = (some t, s) := by
  cases h with
  | intro hword hin => exact ⟨_, rfl, .back hword hin, rfl⟩

theorem enterLines_spec {ahead : List Line} (h : ahead <:+ lines) (line : Nat) :
    (∃ last, enterLines line ahead = (none, last, []) ∧ tokensOf ahead = []) ∨
      ∃ c last, enterLines line ahead = (some c, last, c.below) ∧ c.OnWord ∧ c.IsIn lines ∧
        tokensOf ahead = c.tokens := by
  induction ahead generalizing line with
  | nil => exact .inl ⟨line, rfl, rfl⟩
  | cons next below ih =>
    have hbelow : below <:+ lines := (List.suffix_cons _ _).trans h
    rw [enterLines, tokensOf]
    cases hw : (Cursor.atLine next below).word? with
    | none =>
      rw [Cursor.lineTokens_eq_nil hw]
      exact ih hbelow next.number
    | some c =>
      obtain ⟨hword, hline, hb, gap, hrest, hcolumn, -⟩ := Cursor.word?_eq_some hw
      have hb' : c.below = below := hb
      refine .inr ⟨c, next.number, by rw [hb'], hword, ?_, ?_⟩
      · exact (Cursor.isIn_atLine h).move hline hb hrest hcolumn
      · rw [Cursor.lineTokens_eq hw, Cursor.tokens, hb']

/-- What moving to the next word comes to. -/
theorem Reads.seek (h : Reads lines s) (hs : s.handedBack = none) :
    (∃ last, s.seek = (none, ⟨none, [], last, none⟩) ∧ s.tokens = []) ∨
      ∃ c last, s.seek = (some c, ⟨some c, c.below, last, none⟩) ∧ c.OnWord ∧ c.IsIn lines ∧
        s.tokens = c.tokens := by
  cases h with
  | back => cases hs
  | @between cursor ahead line hahead hcursor =>
    cases hw : cursor.bind Cursor.word? with
    | none =>
      -- Nothing is left of the line, so the next word is on a line ahead.
      have htokens : (⟨cursor, ahead, line, none⟩ : Stream).tokens = tokensOf ahead := by
        cases cursor with
        | none => rfl
        | some c =>
          have hnil : c.lineTokens = [] := Cursor.lineTokens_eq_nil hw
          simp [tokens, hnil]
      rcases enterLines_spec hahead line with
        ⟨last, hlast, hnil⟩ | ⟨c, last, hlast, hword, hin, heq⟩
      · exact .inl ⟨last, by simp [Stream.seek, hw, hlast], htokens.trans hnil⟩
      · exact .inr ⟨c, last, by simp [Stream.seek, hw, hlast], hword, hin, htokens.trans heq⟩
    | some c =>
      obtain ⟨c₀, rfl, hc⟩ := Option.bind_eq_some_iff.mp hw
      obtain ⟨hin, rfl⟩ := hcursor c₀ rfl
      obtain ⟨hword, hline, hb, gap, hrest, hcolumn, -⟩ := Cursor.word?_eq_some hc
      refine .inr ⟨c, line, by simp [Stream.seek, hc, hb], hword, hin.move hline hb hrest hcolumn, ?_⟩
      simp [tokens, Cursor.tokens, Cursor.lineTokens_eq hc, hb]

/-- **Reading a token takes the first of those that are still to come.** -/
theorem Reads.next (h : Reads lines s) :
    (∃ s', s.next = (none, s') ∧ Reads lines s' ∧ s.tokens = [] ∧ s'.tokens = []) ∨
      ∃ t s', s.next = (some t, s') ∧ Behind lines t s' ∧ s.tokens = t :: s'.tokens := by
  cases hback : s.handedBack with
  | some t =>
    cases h with
    | between => cases hback
    | @back c line hword hin => exact .inr ⟨ofCursor c, behind c line, rfl, .intro hword hin, rfl⟩
  | none =>
    rcases h.seek hback with ⟨last, hseek, hnil⟩ | ⟨c, last, hseek, hword, hin, heq⟩
    · refine .inl ⟨⟨none, [], last, none⟩, by rw [Stream.next, hback, hseek], ?_, hnil, rfl⟩
      exact .between List.nil_suffix fun c hc => by cases hc
    · refine .inr ⟨ofCursor c, behind c last, by rw [Stream.next, hback, hseek]; rfl,
        .intro hword hin, ?_⟩
      rw [heq, hword.tokens]
      rfl

/-- After reading a token the stream is right behind it. -/
theorem Reads.next_behind (h : Reads lines s) :
    Reads lines s.next.2 ∧ ∀ t ∈ s.next.1, Behind lines t s.next.2 := by
  rcases h.next with ⟨s', hnext, hreads, -, -⟩ | ⟨t, s', hnext, hbehind, -⟩
  all_goals rw [hnext]
  · refine ⟨hreads, ?_⟩
    rintro t ⟨⟩
  · refine ⟨hbehind.reads, ?_⟩
    rintro t ⟨⟩
    exact hbehind

/-- A stream that gives no token has entered all lines, whether or not it reads some. -/
theorem exhausted_of_next_none {s' : Stream} (h : s.next = (none, s')) :
    ∃ last, s' = ⟨none, [], last, none⟩ := by
  unfold Stream.next at h
  split at h
  · cases h
  · rename_i hnone
    split at h
    · rename_i s₁ hseek
      cases h
      unfold seek at hseek
      split at hseek
      · cases hseek
      · rcases enterLines_spec (List.suffix_refl s.ahead) s.line with
          ⟨last, hlast, -⟩ | ⟨c, last, hlast, -⟩
        · simp only [hlast, hnone, Prod.mk.injEq, true_and] at hseek
          exact ⟨last, hseek.symm⟩
        · simp [hlast] at hseek
    · cases h

theorem tokens_of_next_none {s' : Stream} (h : s.next = (none, s')) : s'.tokens = [] := by
  obtain ⟨last, rfl⟩ := exhausted_of_next_none h
  rfl

theorem firstWordOf_eq (ahead : List Line) :
    firstWordOf ahead = (tokensOf ahead).head?.map Token.text := by
  induction ahead with
  | nil => rfl
  | cons next below ih =>
    rw [firstWordOf, List.findSome?_cons, tokensOf]
    cases hw : (Cursor.atLine next below).word? with
    | none =>
      have hnil : skipBlanks next.text = [] :=
        List.dropWhile_eq_nil_iff.mpr (Cursor.word?_eq_none hw)
      rw [hnil, Cursor.lineTokens_eq_nil hw]
      exact ih
    | some c =>
      have hrest : c.rest = skipBlanks next.text := by
        unfold Cursor.word? at hw
        dsimp only at hw
        split at hw
        · cases hw
        · cases hw
          rfl
      have hword := (Cursor.word?_eq_some hw).1
      have hne : (firstWord c.rest).isEmpty = false := by
        simpa using hword.firstWord_ne_nil
      rw [← hrest, Cursor.lineTokens_eq hw, hword.lineTokens]
      simp [hne, ofCursor]

end Moving
end Stream
end DeviceSchema.Token
