import DeviceSchema.Proofs.Token.Runs

/-! # The text that is left

Where a stream stands can be told by the text that is left to read: the rest of the line and
the lines below, with a line feed at the end of each, from the start of a token that was handed
back (`Stream.left`).  The numbers of lines and columns are no part of it.

Each way to read or to look ahead is described here by this text alone.  A text **leads** with a
word if blanks and the word are its beginning (`Leads`), and it **quotes** a text that stands
between the next two quotes of its first line (`Quotes`).  Both say what the beginning is by
what is left behind it, so that they do not depend on how the text ends.
-/
namespace DeviceSchema.Token
open Text

/-- Some lines as a text, with a line feed at the end of each. -/
def joined (lines : List Line) : List Char := lines.flatMap fun l => l.text ++ ['\n']

/-- No line has a line feed in it. -/
def Whole (lines : List Line) : Prop := ∀ l ∈ lines, '\n' ∉ l.text

/-- The text is blank up to its first word, and `rest` is what follows the word. -/
structure Leads (text word rest : List Char) : Prop where
  isWord : IsWord word
  parted : Parted rest
  gap : ∃ gap, (∀ c ∈ gap, isBlank c = true) ∧ text = gap ++ (word ++ rest)

/-- The text has `body` between the first two quotes of its first line, and `rest` is what
follows the second. -/
def Quotes (text body rest : List Char) : Prop :=
  ∃ lead, (∀ c ∈ lead, c ≠ '"' ∧ c ≠ '\n') ∧ (∀ c ∈ body, c ≠ '"' ∧ c ≠ '\n') ∧
    text = lead ++ '"' :: (body ++ '"' :: rest)

/-- What is left of a text below its first line. -/
def belowLine (text : List Char) : List Char := (text.dropWhile (· ≠ '\n')).tail

/-- The first word of a text, if it has one. -/
def wordAhead (text : List Char) : Option String :=
  let word := firstWord (skipBlanks text)
  if word.isEmpty then none else some (String.ofList word)

section Texts
variable {text word rest gap : List Char}

theorem skipBlanks_append (h : ∀ c ∈ gap, isBlank c = true) (rest : List Char) :
    skipBlanks (gap ++ rest) = skipBlanks rest := List.dropWhile_append_of_pos h

theorem Parted.append {text more : List Char} (h : Parted text) (hmore : Parted more) :
    Parted (text ++ more) := by
  cases text with
  | nil => exact hmore
  | cons c text => exact h

theorem IsWord.exists_cons (h : IsWord word) : ∃ c tail, word = c :: tail ∧ isBlank c = false := by
  obtain ⟨c, tail, rfl⟩ := List.exists_cons_of_ne_nil h.1
  exact ⟨c, tail, rfl, h.2 c List.mem_cons_self⟩

theorem IsWord.skipBlanks (h : IsWord word) (rest : List Char) :
    Text.skipBlanks (word ++ rest) = word ++ rest := by
  obtain ⟨c, tail, rfl, hc⟩ := h.exists_cons
  rw [List.cons_append, Text.skipBlanks, List.dropWhile_cons_of_neg (by simp [hc])]

theorem IsWord.firstWord (h : IsWord word) (hrest : Parted rest) :
    Text.firstWord (word ++ rest) = word := by
  rw [firstWord_append_parted hrest, firstWord_isWord h]

theorem Leads.skipBlanks (h : Leads text word rest) : Text.skipBlanks text = word ++ rest := by
  obtain ⟨gap, hgap, rfl⟩ := h.gap
  rw [skipBlanks_append hgap, h.isWord.skipBlanks]

/-- The first word of a text and what follows it are determined. -/
theorem Leads.unique {word' rest' : List Char} (h : Leads text word rest)
    (h' : Leads text word' rest') : word = word' ∧ rest = rest' := by
  have htext := h.skipBlanks.symm.trans h'.skipBlanks
  have hword := congrArg Text.firstWord htext
  rw [h.isWord.firstWord h.parted, h'.isWord.firstWord h'.parted] at hword
  subst hword
  exact ⟨rfl, List.append_cancel_left htext⟩

theorem Leads.length_le (h : Leads text word rest) : (word ++ rest).length ≤ text.length := by
  obtain ⟨gap, -, rfl⟩ := h.gap
  exact (List.suffix_append gap _).length_le

/-- A text is blank or leads with a word. -/
theorem blank_or_leads (text : List Char) :
    (∀ c ∈ text, isBlank c = true) ∨ ∃ word rest, Leads text word rest := by
  by_cases hnil : Text.skipBlanks text = []
  · exact .inl fun c hc => List.dropWhile_eq_nil_iff.mp hnil c hc
  obtain ⟨c, tail, htail⟩ := List.exists_cons_of_ne_nil hnil
  have hc : isBlank c = false := by
    have hhead := List.head?_dropWhile_not isBlank text
    rw [← Text.skipBlanks, htail] at hhead
    simpa using hhead
  refine .inr ⟨Text.firstWord (Text.skipBlanks text),
    (Text.skipBlanks text).dropWhile fun c => !isBlank c, ⟨?_, ?_⟩, ?_, text.takeWhile isBlank,
    fun d hd => List.mem_takeWhile_imp hd, ?_⟩
  · rw [htail, Text.firstWord, List.takeWhile_cons_of_pos (by simp [hc])]
    exact List.cons_ne_nil _ _
  · exact fun d hd => by simpa using List.mem_takeWhile_imp hd
  · intro d hd
    have hhead := List.head?_dropWhile_not (fun c => !isBlank c) (Text.skipBlanks text)
    rw [hd] at hhead
    simpa using hhead
  · rw [Text.firstWord, List.takeWhile_append_dropWhile]
    exact List.takeWhile_append_dropWhile.symm

theorem belowLine_append {line : List Char} (h : '\n' ∉ line) (below : List Char) :
    belowLine (line ++ '\n' :: below) = below := by
  rw [belowLine, List.dropWhile_append_of_pos fun c hc => by
    simpa using fun he : c = '\n' => h (he ▸ hc)]
  simp

theorem length_belowLine_le (text : List Char) : (belowLine text).length ≤ text.length := by
  have hsuffix := (List.dropWhile_suffix (p := (· ≠ '\n')) (l := text)).length_le
  rw [belowLine, List.length_tail]
  omega

theorem wordAhead_blank (h : ∀ c ∈ text, isBlank c = true) : wordAhead text = none := by
  have hskip : skipBlanks text = [] := List.dropWhile_eq_nil_iff.mpr h
  rw [wordAhead, hskip]
  rfl

theorem Leads.wordAhead (h : Leads text word rest) :
    Token.wordAhead text = some (String.ofList word) := by
  rw [Token.wordAhead, h.skipBlanks, h.isWord.firstWord h.parted]
  simp [h.isWord.1]

end Texts

section Places
variable {c : Cursor} {lines : List Line} {word rest : List Char}

namespace Cursor

/-- The text from the cursor on. -/
def left (c : Cursor) : List Char := c.rest ++ '\n' :: joined c.below

/-- The cursor stands on a word, and `rest` is left behind it. -/
structure Stands (c : Cursor) (word rest : List Char) : Prop where
  isWord : IsWord word
  parted : Parted rest
  left : c.left = word ++ rest
  line : '\n' ∉ c.rest
  below : Whole c.below

theorem parted_below (c : Cursor) : Parted ('\n' :: joined c.below) := by
  rintro _ ⟨⟩
  exact isBlank_newline

theorem Stands.firstWord (h : c.Stands word rest) : Text.firstWord c.rest = word := by
  rw [← firstWord_append_parted c.parted_below, ← Cursor.left, h.left,
    h.isWord.firstWord h.parted]

theorem Stands.text (h : c.Stands word rest) : (ofCursor c).text = String.ofList word := by
  rw [ofCursor, h.firstWord]

theorem Stands.rest_eq (h : c.Stands word rest) :
    c.rest = word ++ (c.skip (ofCursor c).text.length).rest := by
  have hrest := c.rest_eq
  rwa [h.firstWord] at hrest

/-- What is left behind the word. -/
theorem Stands.left_skip (h : c.Stands word rest) :
    (c.skip (ofCursor c).text.length).left = rest := by
  have hleft := h.left
  rw [Cursor.left, h.rest_eq, List.append_assoc] at hleft
  exact List.append_cancel_left hleft

/-- The line of the word ends somewhere behind it. -/
theorem Stands.newline_mem (h : c.Stands word rest) : '\n' ∈ rest := by
  rw [← h.left_skip, Cursor.left]
  simp

end Cursor

theorem joined_cons (next : Line) (below : List Line) :
    joined (next :: below) = (Cursor.atLine next below).left := by
  rw [joined, List.flatMap_cons, List.append_assoc]
  rfl

/-- What stands on a line before its next word is blank. -/
theorem Cursor.left_word? {w : Cursor} (h : c.word? = some w) :
    ∃ gap, (∀ d ∈ gap, isBlank d = true) ∧ c.left = gap ++ w.left := by
  obtain ⟨-, -, hbelow, gap, hgap, -, hblank⟩ := word?_eq_some h
  refine ⟨gap, hblank, ?_⟩
  rw [Cursor.left, hgap, List.append_assoc, Cursor.left, hbelow]

/-- A cursor that was moved to a word stands on it. -/
theorem Cursor.stands_word? {w : Cursor} (h : c.word? = some w) (hline : '\n' ∉ c.rest)
    (hbelow : Whole c.below) : ∃ word rest, Leads c.left word rest ∧ w.Stands word rest := by
  obtain ⟨gap, hgap, hleft⟩ := Cursor.left_word? h
  obtain ⟨⟨d, tail, hd, hblank⟩, -, hb, gap', hgap', -, -⟩ := word?_eq_some h
  rcases blank_or_leads w.left with hall | ⟨word, rest, hleads⟩
  · have hmem : d ∈ w.left := by simp [Cursor.left, hd]
    rw [hall d hmem] at hblank
    cases hblank
  obtain ⟨gap₂, hgap₂, hw⟩ := hleads.gap
  -- The cursor is on a character that shows, so nothing is skipped.
  obtain rfl : gap₂ = [] := by
    cases gap₂ with
    | nil => rfl
    | cons e more =>
      rw [Cursor.left, hd] at hw
      obtain ⟨rfl, -⟩ := List.cons.inj hw
      rw [hgap₂ d List.mem_cons_self] at hblank
      cases hblank
  refine ⟨word, rest, ⟨hleads.isWord, hleads.parted, gap, hgap, by rw [hleft, hw]; rfl⟩,
    hleads.isWord, hleads.parted, hw, ?_, hb ▸ hbelow⟩
  rw [hgap'] at hline
  exact fun hmem => hline (List.mem_append_right _ hmem)

theorem Cursor.left_blank (h : c.word? = none) (hbelow : ∀ d ∈ joined c.below, isBlank d = true) :
    ∀ d ∈ c.left, isBlank d = true := by
  intro d hd
  rcases List.mem_append.mp hd with hmem | hmem
  · exact word?_eq_none h d hmem
  · rcases List.mem_cons.mp hmem with rfl | hmem
    · exact isBlank_newline
    · exact hbelow d hmem

theorem Leads.after_blank {text front : List Char} (h : Leads text word rest)
    (hfront : ∀ d ∈ front, isBlank d = true) : Leads (front ++ text) word rest := by
  obtain ⟨gap, hgap, rfl⟩ := h.gap
  refine ⟨h.isWord, h.parted, front ++ gap, fun d hd => ?_, (List.append_assoc _ _ _).symm⟩
  exact (List.mem_append.mp hd).elim (hfront d) (hgap d)

theorem Leads.after_newline {text : List Char} (h : Leads text word rest) :
    Leads ('\n' :: text) word rest :=
  h.after_blank fun _ hd => List.mem_singleton.mp hd ▸ isBlank_newline

/-- Lines are entered up to the first word. -/
theorem enterLines_left (h : Whole lines) (line : Nat) :
    ((∀ d ∈ joined lines, isBlank d = true) ∧
      ∃ last, Stream.enterLines line lines = (none, last, [])) ∨
    ∃ word rest c last, Leads (joined lines) word rest ∧ c.Stands word rest ∧
      Stream.enterLines line lines = (some c, last, c.below) := by
  induction lines generalizing line with
  | nil => exact .inl ⟨by simp [joined], line, rfl⟩
  | cons next below ih =>
    have hnext : '\n' ∉ (Cursor.atLine next below).rest := h next List.mem_cons_self
    have hbelow : Whole below := fun l hl => h l (List.mem_cons_of_mem _ hl)
    rw [joined_cons, Stream.enterLines]
    cases hword : (Cursor.atLine next below).word? with
    | some c =>
      obtain ⟨word, rest, hleads, hstands⟩ := Cursor.stands_word? hword hnext hbelow
      have hb : c.below = below := (Cursor.word?_eq_some hword).2.2.1
      exact .inr ⟨word, rest, c, next.number, hleads, hstands, by rw [hb]⟩
    | none =>
      have hblank := Cursor.word?_eq_none hword
      rcases ih hbelow next.number with ⟨hall, last, hlast⟩ | ⟨word, rest, c, last, hleads, hc, hlast⟩
      · exact .inl ⟨Cursor.left_blank hword hall, last, hlast⟩
      · refine .inr ⟨word, rest, c, last, ?_, hc, hlast⟩
        exact hleads.after_newline.after_blank hblank

end Places

section Quoting
variable {c : Cursor} {text body rest : List Char}

/-- What stands between the quotes is determined. -/
theorem Quotes.unique {body' rest' : List Char} (h : Quotes text body rest)
    (h' : Quotes text body' rest') : body = body' ∧ rest = rest' := by
  obtain ⟨lead, hlead, hbody, rfl⟩ := h
  obtain ⟨lead', hlead', hbody', htext⟩ := h'
  have hsplit : ∀ {front front' tail tail' : List Char}, (∀ c ∈ front, c ≠ '"' ∧ c ≠ '\n') →
      (∀ c ∈ front', c ≠ '"' ∧ c ≠ '\n') → front ++ '"' :: tail = front' ++ '"' :: tail' →
      front = front' ∧ tail = tail' := by
    intro front front' tail tail' hfront hfront' heq
    have htake := congrArg (List.takeWhile (· ≠ '"')) heq
    rw [takeWhile_quote fun hmem => (hfront _ hmem).1 rfl,
      takeWhile_quote fun hmem => (hfront' _ hmem).1 rfl] at htake
    subst htake
    exact ⟨rfl, (List.cons.inj (List.append_cancel_left heq)).2⟩
  obtain ⟨-, htail⟩ := hsplit hlead hlead' htext
  exact hsplit hbody hbody' htail

/-- A text that is read in quotes is quoted. -/
theorem Cursor.quotes_left {c' : Cursor} (hline : '\n' ∉ c.rest)
    (h : c.quoted? = some (body, c')) :
    Quotes c.left body c'.left ∧ c'.below = c.below ∧ '\n' ∉ c'.rest := by
  obtain ⟨lead, rest, hrest, hlead, hbody, rfl⟩ := Cursor.quoted?_eq_some h
  simp only [hrest, List.mem_append, List.mem_cons, not_or] at hline
  obtain ⟨hline, -, hline', -, hline''⟩ := hline
  refine ⟨⟨lead, fun d hd => ?_, fun d hd => ?_, by simp [Cursor.left, hrest]⟩, rfl, hline''⟩
  · exact ⟨fun he => hlead (he ▸ hd), fun he => hline (he ▸ hd)⟩
  · exact ⟨fun he => hbody (he ▸ hd), fun he => hline' (he ▸ hd)⟩

/-- A text that is quoted is read. -/
theorem Cursor.quoted?_of_quotes (h : Quotes c.left body rest) :
    ∃ c', c.quoted? = some (body, c') := by
  obtain ⟨lead, hlead, hbody, hleft⟩ := h
  have htext : (lead ++ '"' :: (body ++ ['"'])) ++ rest = c.rest ++ '\n' :: joined c.below := by
    rw [← Cursor.left, hleft]
    simp
  -- No line end comes before the second quote, so both stand on the line.
  have hfree : '\n' ∉ lead ++ '"' :: (body ++ ['"']) := by
    intro hmem
    simp only [List.mem_append, List.mem_cons, List.not_mem_nil, or_false] at hmem
    rcases hmem with hmem | hmem | hmem | hmem
    · exact (hlead _ hmem).2 rfl
    · exact absurd hmem (by decide)
    · exact (hbody _ hmem).2 rfl
    · exact absurd hmem (by decide)
  obtain ⟨tail, htail, -⟩ := exists_tail htext hfree
  have hrest : c.rest = lead ++ '"' :: (body ++ '"' :: tail) := by simp [htail]
  exact ⟨_, Cursor.quoted?_of_rest hrest (fun hmem => (hlead _ hmem).1 rfl)
    fun hmem => (hbody _ hmem).1 rfl⟩

/-- On the line of the cursor, a text is read in quotes if and only if one is quoted. -/
theorem Cursor.quoted?_left (hline : '\n' ∉ c.rest) :
    (∃ body c', c.quoted? = some (body, c') ∧ Quotes c.left body c'.left ∧ c'.below = c.below ∧
      '\n' ∉ c'.rest) ∨
    (c.quoted? = none ∧ ∀ body rest, ¬ Quotes c.left body rest) := by
  cases hquoted : c.quoted? with
  | some found =>
    obtain ⟨body, c'⟩ := found
    exact .inl ⟨body, c', rfl, Cursor.quotes_left hline hquoted⟩
  | none =>
    refine .inr ⟨rfl, fun body rest h => ?_⟩
    obtain ⟨c', hsome⟩ := Cursor.quoted?_of_quotes h
    cases hquoted.symm.trans hsome

end Quoting

namespace Stream
variable {s : Stream} {c : Cursor} {word rest : List Char} {line : Nat}

/-- The text that is left to read, from the start of a token that was handed back. -/
def left (s : Stream) : List Char :=
  match s.handedBack with
  | some token => token.start.left
  | none =>
    match s.cursor with
    | some c => c.left
    | none => joined s.ahead

/-- The cursor, the lines ahead and a token that was handed back agree. -/
inductive Sound : Stream → Prop
  | above {lines : List Line} {line : Nat} (h : Whole lines) : Sound ⟨none, lines, line, none⟩
  | inside {c : Cursor} {line : Nat} (hline : '\n' ∉ c.rest) (hbelow : Whole c.below) :
      Sound ⟨some c, c.below, line, none⟩
  | back {c : Cursor} {word rest : List Char} {line : Nat} (h : c.Stands word rest) :
      Sound { behind c line with handedBack := some (ofCursor c) }

theorem behind_left (h : c.Stands word rest) (line : Nat) :
    (behind c line).Sound ∧ (behind c line).left = rest := by
  refine ⟨.inside (c := c.skip (ofCursor c).text.length) (fun hmem => h.line ?_) h.below,
    h.left_skip⟩
  rw [h.rest_eq]
  exact List.mem_append_right _ hmem

/-- A token that was read can be handed back. -/
theorem handBack_left (h : c.Stands word rest) (line : Nat) :
    ∃ s', (behind c line).handBack (ofCursor c) = .ok s' ∧ s'.Sound ∧ s'.left = word ++ rest :=
  ⟨_, rfl, .back h, h.left⟩

/-- Behind a token, the rest of the line can be given up. -/
theorem dropLine_left (h : c.Stands word rest) (line : Nat) :
    (behind c line).dropLine.Sound ∧
      (behind c line).dropLine.left = belowLine rest := by
  refine ⟨.above h.below, ?_⟩
  have hfree : '\n' ∉ (c.skip (ofCursor c).text.length).rest := by
    have hline := h.line
    rw [h.rest_eq] at hline
    exact fun hmem => hline (List.mem_append_right _ hmem)
  rw [← h.left_skip, Cursor.left, belowLine_append hfree]
  rfl

theorem Sound.seek (h : s.Sound) (hnone : s.handedBack = none) :
    ((∀ d ∈ s.left, isBlank d = true) ∧ ∃ last, s.seek = (none, ⟨none, [], last, none⟩)) ∨
    ∃ word rest c line, Leads s.left word rest ∧ c.Stands word rest ∧
      s.seek = (some c, ⟨some c, c.below, line, none⟩) := by
  cases h with
  | @above lines line h =>
    rcases enterLines_left h line with ⟨hall, last, hlast⟩ | ⟨word, rest, c, last, hleads, hc, hlast⟩
    · exact .inl ⟨hall, last, by simp [Stream.seek, hlast]⟩
    · exact .inr ⟨word, rest, c, last, hleads, hc, by simp [Stream.seek, hlast]⟩
  | @inside c line hline hbelow =>
    cases hword : c.word? with
    | some w =>
      obtain ⟨word, rest, hleads, hstands⟩ := Cursor.stands_word? hword hline hbelow
      have hb : w.below = c.below := (Cursor.word?_eq_some hword).2.2.1
      exact .inr ⟨word, rest, w, line, hleads, hstands, by simp [Stream.seek, hword, hb]⟩
    | none =>
      have hblank := Cursor.word?_eq_none hword
      rcases enterLines_left hbelow line with
        ⟨hall, last, hlast⟩ | ⟨word, rest, w, last, hleads, hw, hlast⟩
      · exact .inl ⟨Cursor.left_blank hword hall, last, by simp [Stream.seek, hword, hlast]⟩
      · refine .inr ⟨word, rest, w, last, ?_, hw, by simp [Stream.seek, hword, hlast]⟩
        exact hleads.after_newline.after_blank hblank
  | back h => cases hnone

/-- **The next token is the word that the text leads with.** -/
theorem Sound.next (h : s.Sound) :
    ((∀ d ∈ s.left, isBlank d = true) ∧ ∃ s', s.next = (none, s') ∧ s'.Sound ∧ s'.left = []) ∨
    ∃ word rest c line, Leads s.left word rest ∧ c.Stands word rest ∧
      s.next = (some (ofCursor c), behind c line) := by
  cases hback : s.handedBack with
  | none =>
    rcases h.seek hback with ⟨hall, last, hseek⟩ | ⟨word, rest, c, line, hleads, hc, hseek⟩
    · refine .inl ⟨hall, ⟨none, [], last, none⟩, ?_, .above nofun, rfl⟩
      rw [Stream.next, hback, hseek]
    · refine .inr ⟨word, rest, c, line, hleads, hc, ?_⟩
      rw [Stream.next, hback, hseek]
      rfl
  | some token =>
    cases h with
    | above h => cases hback
    | inside hline hbelow => cases hback
    | @back c word rest line h =>
      exact .inr ⟨word, rest, c, line, ⟨h.isWord, h.parted, [], List.forall_mem_nil _, h.left⟩, h, rfl⟩

theorem firstWordOf_left {lines : List Line} (h : Whole lines) :
    firstWordOf lines = wordAhead (joined lines) := by
  induction lines with
  | nil => rfl
  | cons next below ih =>
    have hbelow : Whole below := fun l hl => h l (List.mem_cons_of_mem _ hl)
    have hleft : joined (next :: below) = next.text ++ '\n' :: joined below := joined_cons next below
    rw [firstWordOf, List.findSome?_cons, hleft]
    rcases blank_or_leads next.text with hall | ⟨word, rest, hleads⟩
    · have hskip : skipBlanks next.text = [] := List.dropWhile_eq_nil_iff.mpr hall
      have hahead : skipBlanks (next.text ++ '\n' :: joined below) = skipBlanks (joined below) :=
        (skipBlanks_append hall _).trans (List.dropWhile_cons_of_pos isBlank_newline)
      rw [hskip, wordAhead, hahead]
      exact ih hbelow
    · have hline : Leads (next.text ++ '\n' :: joined below) word (rest ++ '\n' :: joined below) := by
        obtain ⟨gap, hgap, htext⟩ := hleads.gap
        refine ⟨hleads.isWord, fun d hd => ?_, gap, hgap, by simp [htext]⟩
        cases rest with
        | nil =>
          cases hd
          exact isBlank_newline
        | cons e more => exact hleads.parted d hd
      rw [hline.wordAhead, hleads.skipBlanks, hleads.isWord.firstWord hleads.parted]
      simp [hleads.isWord.1]

/-- **Looking ahead shows the first word of the text.** -/
theorem Sound.peek (h : s.Sound) : s.peek = wordAhead s.left := by
  cases h with
  | above h => exact firstWordOf_left h
  | @inside c line hline hbelow =>
    cases hword : c.word? with
    | some w =>
      obtain ⟨word, rest, hleads, hstands⟩ := Cursor.stands_word? hword hline hbelow
      simp only [Stream.peek, hword, hstands.text]
      exact hleads.wordAhead.symm
    | none =>
      have hline' : skipBlanks c.left = skipBlanks (joined c.below) := by
        rw [Cursor.left, skipBlanks_append (Cursor.word?_eq_none hword)]
        exact List.dropWhile_cons_of_pos isBlank_newline
      simp only [Stream.peek, hword, firstWordOf_left hbelow]
      show _ = wordAhead c.left
      rw [wordAhead, wordAhead, hline']
  | @back c word rest line h =>
    have hleads : Leads c.left word rest := ⟨h.isWord, h.parted, [], List.forall_mem_nil _, h.left⟩
    exact (congrArg some h.text).trans hleads.wordAhead.symm

/-- Going back to a token that was handed back changes nothing of what is left. -/
theorem Sound.rewind (h : s.Sound) :
    s.rewind.Sound ∧ s.rewind.left = s.left ∧ s.rewind.handedBack = none := by
  cases h with
  | above h => exact ⟨.above h, rfl, rfl⟩
  | inside hline hbelow => exact ⟨.inside hline hbelow, rfl, rfl⟩
  | back h => exact ⟨.inside h.line h.below, rfl, rfl⟩

/-- **What is read in quotes is what the text quotes, from its first word on.** -/
theorem Sound.nextQuoted (h : s.Sound) : ∃ s', s'.Sound ∧
    ((∃ body, s.nextQuoted = (some (String.ofList body), s') ∧
      Quotes (skipBlanks s.left) body s'.left) ∨
    (s.nextQuoted = (none, s') ∧ s'.left = skipBlanks s.left ∧
      ∀ body rest, ¬ Quotes (skipBlanks s.left) body rest)) := by
  obtain ⟨hsound, hleft, hnone⟩ := h.rewind
  rw [← hleft]
  rcases hsound.seek hnone with ⟨hall, last, hseek⟩ | ⟨word, rest, c, line, hleads, hc, hseek⟩
  · have hskip : skipBlanks s.rewind.left = [] := List.dropWhile_eq_nil_iff.mpr hall
    refine ⟨⟨none, [], last, none⟩, .above nofun, .inr ⟨?_, hskip.symm, ?_⟩⟩
    · rw [Stream.nextQuoted, hseek]
    · rintro body rest ⟨lead, -, -, htext⟩
      rw [hskip] at htext
      simp at htext
  · have hskip : skipBlanks s.rewind.left = c.left := hleads.skipBlanks.trans hc.left.symm
    rw [hskip]
    rcases Cursor.quoted?_left hc.line with ⟨body, c', hquoted, hquotes, hb, hline⟩ | ⟨hquoted, hall⟩
    · refine ⟨⟨some c', c'.below, line, none⟩, .inside hline (hb ▸ hc.below), .inl ⟨body, ?_, hquotes⟩⟩
      rw [Stream.nextQuoted, hseek]
      dsimp only
      rw [hquoted, hb]
    · refine ⟨⟨some c, c.below, line, none⟩, .inside hc.line hc.below, .inr ⟨?_, rfl, hall⟩⟩
      rw [Stream.nextQuoted, hseek]
      dsimp only
      rw [hquoted]

/-! ## No step leaves more -/

theorem Sound.next_le (h : s.Sound) : s.next.2.Sound ∧ s.next.2.left.length ≤ s.left.length := by
  rcases h.next with ⟨-, s', hs, hsound, hnil⟩ | ⟨word, rest, c, line, hleads, hc, hs⟩
  · rw [hs, hnil]
    exact ⟨hsound, Nat.zero_le _⟩
  · obtain ⟨hsound, hleft⟩ := behind_left hc line
    have hle := hleads.length_le
    rw [List.length_append] at hle
    rw [hs, hleft]
    exact ⟨hsound, by omega⟩

theorem Sound.nextQuoted_le (h : s.Sound) :
    s.nextQuoted.2.Sound ∧ s.nextQuoted.2.left.length ≤ s.left.length := by
  obtain ⟨s', hsound, hnext⟩ := h.nextQuoted
  have hskip := length_skipBlanks_le s.left
  rcases hnext with ⟨body, hs, lead, -, -, htext⟩ | ⟨hs, hleft, -⟩
  · rw [hs]
    refine ⟨hsound, ?_⟩
    rw [htext] at hskip
    simp at hskip
    dsimp only
    omega
  · rw [hs]
    exact ⟨hsound, hleft ▸ hskip⟩

theorem Sound.nextInt_le (h : s.Sound) :
    s.nextInt.2.Sound ∧ s.nextInt.2.left.length ≤ s.left.length := by
  have hnext := h.next_le
  unfold Stream.nextInt
  dsimp only
  split <;> exact hnext

theorem Sound.gather_le (h : s.Sound) (tokens : Nat) (text : String) :
    (s.gather tokens text).2.Sound ∧ (s.gather tokens text).2.left.length ≤ s.left.length := by
  refine gather_keeps (fun s' => s'.Sound ∧ s'.left.length ≤ s.left.length) (fun s' hs => ?_)
    ⟨h, Nat.le_refl _⟩ tokens text
  obtain ⟨hsound, hle⟩ := hs.1.next_le
  exact ⟨hsound, hle.trans hs.2⟩

theorem Sound.nextExpression_le (h : s.Sound) :
    s.nextExpression.2.Sound ∧ s.nextExpression.2.left.length ≤ s.left.length :=
  h.gather_le (Ceiling.expressionLength + 1) ""

end Stream
end DeviceSchema.Token
