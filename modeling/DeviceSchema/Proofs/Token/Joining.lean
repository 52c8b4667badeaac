import DeviceSchema.Proofs.Token.SourceText
import DeviceSchema.Proofs.Token.Expressions

/-! # Joining the words of an expression

Where an expression ends is told by its words: joined, they **close** all parentheses that they
open, and no shorter part of them does (`Closes`).  Each word that is joined leaves words of which
the same is to be said, with more joined before them (`Closes.tail`), and so joining takes these
words and no others (`Reads.gather_closes`).

A word is what stands between blanks, however many there are and on whatever lines.  So an
expression may be laid out in any way, and what is read behind it are the words of the text behind
it at their places (`ofSource_expression`).
-/
namespace DeviceSchema.Token
open Text
open Token.Stream (openParens)

/-- Behind what is joined already, the words close all parentheses, and something is open before
each of them but the first.  None of the others begins a text in quotes.  It does not matter how
the first one begins, or what else the words consist of. -/
structure Closes (joined : List Char) (ws : List (List Char)) : Prop where
  ne_nil : ws ≠ []
  unquoted : ∀ w ∈ ws.tail, w.head? ≠ some '"'
  fits : (joined ++ ws.flatten).length ≤ Ceiling.expressionLength
  closed : openParens (joined ++ ws.flatten) = 0
  opened : ∀ count < ws.length, 0 < count → 0 < openParens (joined ++ (ws.take count).flatten)

instance (joined : List Char) (ws : List (List Char)) : Decidable (Closes joined ws) :=
  decidable_of_iff
    (ws ≠ [] ∧ (∀ w ∈ ws.tail, w.head? ≠ some '"') ∧
      (joined ++ ws.flatten).length ≤ Ceiling.expressionLength ∧
      openParens (joined ++ ws.flatten) = 0 ∧
      ∀ count < ws.length, 0 < count → 0 < openParens (joined ++ (ws.take count).flatten))
    ⟨fun ⟨hne, hunquoted, hfits, hclosed, hopened⟩ => ⟨hne, hunquoted, hfits, hclosed, hopened⟩,
      fun ⟨hne, hunquoted, hfits, hclosed, hopened⟩ => ⟨hne, hunquoted, hfits, hclosed, hopened⟩⟩

section Words
variable {before front text rest joined word : List Char} {ws : List (List Char)}

/-- The other words close what is open behind the first. -/
theorem Closes.tail (h : Closes joined (word :: ws)) (hne : ws ≠ []) :
    0 < openParens (joined ++ word) ∧ Closes (joined ++ word) ws := by
  obtain ⟨-, hunquoted, hfits, hclosed, hopened⟩ := h
  rw [List.flatten_cons, ← List.append_assoc] at hfits hclosed
  refine ⟨?_, hne, fun w hw => hunquoted w (List.mem_of_mem_tail hw), hfits, hclosed, ?_⟩
  · have hlength := List.length_pos_iff.mpr hne
    simpa using hopened 1 (by rw [List.length_cons]; omega) Nat.one_pos
  · intro count hcount _
    simpa using hopened (count + 1) (Nat.succ_lt_succ hcount) count.succ_pos

/-- Tokens at the places of some runs say what the runs say. -/
theorem texts_of_placed {ts : List Token} {runs : List Run}
    (h : ts.map Token.placed = runs.map Run.placed) :
    (ts.map fun t => t.text.toList) = runs.map Run.word := by
  have htexts := congrArg (List.map Prod.fst) h
  rwa [List.map_map, List.map_map] at htexts

/-- The runs of a text are its words, each at its place. -/
theorem map_word_runsAfter (before text : List Char) :
    (runsAfter before text).map Run.word = words text := by
  induction text using byBlocks generalizing before with
  | nil => rw [runsAfter_nil]; rfl
  | blank c rest hc ih => rw [runsAfter_blank hc, words_cons_blank hc, ih]
  | word word rest hword hparted ih =>
    rw [runsAfter_word hword hparted, words_append_parted hparted, words_of_isWord hword,
      List.map_cons, ih, List.singleton_append]

/-- Nothing of what a text is parted from belongs to a run of it. -/
theorem runsAfter_append_of_reverse (h : Parted front.reverse) (before rest : List Char) :
    runsAfter before (front ++ rest) =
      runsAfter before front ++ runsAfter (before ++ front) rest := by
  rcases List.eq_nil_or_concat front with rfl | ⟨init, c, rfl⟩
  · rw [runsAfter_nil, List.append_nil, List.nil_append, List.nil_append]
  · rw [List.concat_eq_append] at h ⊢
    have hc : isBlank c = true := parted_reverse_concat.mp h
    have hparted (more : List Char) : Parted (c :: more) := fun d hd => Option.some.inj hd ▸ hc
    calc runsAfter before (init ++ [c] ++ rest)
        = runsAfter before init ++ runsAfter (before ++ init) (c :: rest) := by
          rw [List.append_assoc, List.singleton_append, runsAfter_append (hparted rest)]
      _ = runsAfter before (init ++ [c]) ++ runsAfter (before ++ (init ++ [c])) rest := by
          rw [runsAfter_append (hparted []), runsAfter_blank hc, runsAfter_blank hc, runsAfter_nil,
            List.append_nil, List.append_assoc]

/-- There are no more words than characters in them. -/
theorem length_words_le (text : List Char) : (words text).length ≤ (words text).flatten.length := by
  induction text using byBlocks with
  | nil => exact Nat.le_refl _
  | blank c rest hc ih => rwa [words_cons_blank hc]
  | word word rest hword hparted ih =>
    have hpos := List.length_pos_iff.mpr hword.1
    rw [words_append_parted hparted, words_of_isWord hword, List.singleton_append,
      List.flatten_cons, List.length_append, List.length_cons]
    omega

end Words

namespace Stream
variable {lines : List Line} {s : Stream} {source : String}

/-- What is left behind some tokens are those behind them. -/
theorem Reads.take_snd (h : Reads lines s) (most : Nat) :
    Reads lines (s.take most).2 ∧ (s.take most).2.tokens = s.tokens.drop most := by
  induction most generalizing s with
  | zero => exact ⟨h, rfl⟩
  | succ most ih =>
    rw [Stream.take]
    rcases h.next with ⟨s', hnext, hreads, hnil, hnil'⟩ | ⟨t, s', hnext, hbehind, heq⟩
    · rw [hnext, hnil, List.drop_nil]
      exact ⟨hreads, hnil'⟩
    · rw [hnext, heq, List.drop_succ_cons]
      exact ih hbehind.reads

/-- **Words that close what they open are joined, and what is behind them is left.**  The induction
is on the words; what is joined already makes the difference between the first and the others. -/
theorem Reads.gather_closes {joined : List Char} {ts more : List Token} {tokens : Nat}
    (hs : Reads lines s) (htokens : s.tokens = ts ++ more)
    (h : Closes joined (ts.map fun t => t.text.toList))
    (hquote : joined ≠ [] → ∀ t ∈ ts.head?, t.text.toList.head? ≠ some '"')
    (hmost : ts.length ≤ tokens) :
    ∃ s', s.gather tokens (String.ofList joined) =
        (.ok (String.ofList (joined ++ (ts.map fun t => t.text.toList).flatten)), s') ∧
      Reads lines s' ∧ s'.tokens = more := by
  induction ts generalizing s joined tokens with
  | nil => exact absurd rfl h.ne_nil
  | cons t ts ih =>
    obtain ⟨tokens, rfl⟩ := Nat.exists_eq_add_of_le' (Nat.zero_lt_of_lt hmost)
    rw [List.map_cons] at h
    rcases hs.next with ⟨s', -, -, hnil, -⟩ | ⟨t', s', hnext, hbehind, heq⟩
    · rw [htokens] at hnil
      cases hnil
    rw [htokens] at heq
    obtain ⟨rfl, hrest⟩ := List.cons.inj heq
    have hplain : (decide ((String.ofList joined).length > 0) && s.peekStartsWith '"') = false := by
      rw [peekStartsWith, hs.peek, htokens]
      cases joined with
      | nil => simp
      | cons c joined =>
        have hhead := hquote (List.cons_ne_nil _ _) t rfl
        simp [hhead]
    have hjoined : String.ofList joined ++ t.text = String.ofList (joined ++ t.text.toList) := by
      rw [String.ofList_append, String.ofList_toList]
    rw [gather_token hplain hnext, hjoined]
    have hfits := h.fits
    rw [List.flatten_cons, ← List.append_assoc, List.length_append] at hfits
    have hlength : (String.ofList (joined ++ t.text.toList)).length ≤ Ceiling.expressionLength := by
      rw [String.length_ofList]
      omega
    cases ts with
    | nil =>
      have hclosed := h.closed
      simp only [List.map_nil, List.flatten_cons, List.flatten_nil, List.append_nil] at hclosed
      rw [verdict?_closed hlength (by rwa [String.toList_ofList])]
      exact ⟨s', by simp, hbehind.reads, hrest.symm⟩
    | cons u ts =>
      obtain ⟨hopen, htail⟩ := h.tail (List.cons_ne_nil _ _)
      have hnext : ∀ v ∈ (u :: ts).head?, v.text.toList.head? ≠ some '"' := by
        rintro v ⟨⟩
        exact h.unquoted _ List.mem_cons_self
      rw [verdict?_eq_none.mpr ⟨hlength, by rwa [String.toList_ofList]⟩, List.map_cons,
        List.flatten_cons, ← List.append_assoc]
      exact ih hbehind.reads hrest.symm htail (fun _ => hnext) (Nat.le_of_succ_le_succ hmost)

/-- An expression is read to its end and evaluated. -/
theorem Reads.nextExpression_closes {ts more : List Token} (hs : Reads lines s)
    (htokens : s.tokens = ts ++ more) {text : List Char}
    (hwords : ts.map (fun t => t.text.toList) = words text) (h : Closes [] (words text)) :
    ∃ s', s.nextExpression = (Arithmetic.evaluate (String.ofList (words text).flatten), s') ∧
      Reads lines s' ∧ s'.tokens = more := by
  have hmost : ts.length ≤ Ceiling.expressionLength + 1 := by
    have hlength : ts.length = (words text).length := by rw [← hwords, List.length_map]
    have hle := length_words_le text
    have hfits : (words text).flatten.length ≤ Ceiling.expressionLength := h.fits
    omega
  obtain ⟨s', hgather, hreads, hmore⟩ :=
    hs.gather_closes htokens (hwords ▸ h) (fun hne => absurd rfl hne) hmost
  rw [hwords] at hgather
  refine ⟨s', ?_, hreads, hmore⟩
  have hread : s.readExpression = _ := hgather
  rw [Stream.nextExpression, hread]
  rfl

/-- The tokens of a source are the runs of its text. -/
theorem placed_numberedLines (source : String) :
    (tokensOf (numberedLines source)).map Token.placed =
      (runsAfter [] source.toList).map Run.placed := by
  rw [numberedLines_eq]
  exact map_placed_tokensOf _ rfl rfl

/-- Line ends are blank, so that they make no difference to the words. -/
theorem words_sourceText (source : String) : words (sourceText source) = words source.toList := by
  have htexts (ls : List Line) :
      (ls.flatMap fun l => words l.text) = (tokensOf ls).map fun t => t.text.toList := by
    induction ls with
    | nil => rfl
    | cons next below ih =>
      rw [List.flatMap_cons, ih, tokensOf, List.map_append]
      exact congrArg (· ++ _) words_eq_map_lineTokens
  calc words (sourceText source)
      = (tokensOf (numberedLines source)).map fun t => t.text.toList := by
        rw [← htexts, ← words_joined, joined_eq, numberedLines_text, sourceText]
    _ = (runsAfter [] source.toList).map Run.word := texts_of_placed (placed_numberedLines source)
    _ = words source.toList := map_word_runsAfter [] _

/-- **Words that close what they open are read as one expression, however they are laid out and
whatever stands before and behind them.**  The words before it are read first, and those behind it
are left. -/
theorem ofSource_expression {front text rest : List Char}
    (hsource : source.toList = front ++ (text ++ rest)) (hfront : Parted front.reverse)
    (hrest : Parted rest) (htext : Closes [] (words text)) :
    ((∃ s, ofSource source = .ok s) ↔
      ∀ w ∈ words front ++ words rest, w.length ≤ Ceiling.wordLength) ∧
    ∀ s, ofSource source = .ok s → ∃ s',
      (s.take (words front).length).2.nextExpression =
        (Arithmetic.evaluate (String.ofList (words text).flatten), s') ∧
      s'.drain.1.map Token.placed = (runsAfter (front ++ text) rest).map Run.placed := by
  have hruns : runsAfter [] source.toList = runsAfter [] front ++
      (runsAfter front text ++ runsAfter (front ++ text) rest) := by
    rw [hsource, runsAfter_append_of_reverse hfront, runsAfter_append hrest, List.nil_append]
  constructor
  · have hwords : words source.toList = words front ++ (words text ++ words rest) := by
      rw [← map_word_runsAfter [], hruns, List.map_append, List.map_append, map_word_runsAfter,
        map_word_runsAfter, map_word_runsAfter]
    -- The words of the expression are no longer than the expression.
    have hshort : ∀ w ∈ words text, w.length ≤ Ceiling.wordLength := by
      intro w hw
      have hpart := (List.sublist_flatten_of_mem hw).length_le
      exact (hpart.trans htext.fits).trans (by decide)
    rw [exists_ofSource_iff, words_sourceText, hwords]
    simp only [List.forall_mem_append]
    exact ⟨fun h => ⟨h.1, h.2.2⟩, fun h => ⟨h.1, hshort, h.2⟩⟩
  · intro s hs
    have htokens : s.tokens = tokensOf (numberedLines source) := by
      rw [eq_of_ofSource hs]
      rfl
    have hplaced := placed_numberedLines source
    rw [← htokens, hruns, List.map_append, List.map_append, List.map_eq_append_iff] at hplaced
    obtain ⟨before, others, hsplit, hbefore, hothers⟩ := hplaced
    obtain ⟨ts, more, rfl, hts, hmore⟩ := List.map_eq_append_iff.mp hothers
    have hcount : before.length = (words front).length := by
      rw [← map_word_runsAfter [], ← texts_of_placed hbefore, List.length_map]
    obtain ⟨hreads, hleft⟩ := (reads_ofSource hs).take_snd (words front).length
    rw [hsplit, ← hcount, List.drop_left, hcount] at hleft
    have htexts : (ts.map fun t => t.text.toList) = words text :=
      (texts_of_placed hts).trans (map_word_runsAfter front text)
    obtain ⟨s', hnext, hreads', hmore'⟩ := hreads.nextExpression_closes hleft htexts htext
    exact ⟨s', hnext, by rw [hreads'.drain, hmore', hmore]⟩

/-- An expression on two lines, with a word before it and a text in quotes behind it. -/
theorem ofSource_expression_small : ∃ s s',
    ofSource "n (2 * (3 +\n 1)) \"d\"" = .ok s ∧
    (s.take 1).2.nextExpression = (.ok 8, s') ∧
    s'.drain.1.map Token.placed = [("\"d\"".toList, 2, 6)] := by
  have hfront : Parted ['n', ' '].reverse := fun c hc => Option.some.inj hc ▸ rfl
  have hrest : Parted " \"d\"".toList := fun c hc => Option.some.inj hc ▸ rfl
  obtain ⟨hexists, hevery⟩ :=
    @ofSource_expression "n (2 * (3 +\n 1)) \"d\"" ['n', ' '] "(2 * (3 +\n 1))".toList _
      (by decide) hfront hrest (by decide +kernel)
  obtain ⟨s, hs⟩ := hexists.mpr (by decide +kernel)
  obtain ⟨s', hnext, hleft⟩ := hevery s hs
  have hcount : (words ['n', ' ']).length = 1 := by decide +kernel
  have hvalue : Arithmetic.evaluate
      (String.ofList (words "(2 * (3 +\n 1))".toList).flatten) = .ok 8 := by
    decide +kernel
  have hruns : (runsAfter (['n', ' '] ++ "(2 * (3 +\n 1))".toList) " \"d\"".toList).map Run.placed =
      [("\"d\"".toList, 2, 6)] := by
    decide +kernel
  rw [hcount, hvalue] at hnext
  exact ⟨s, s', hs, hnext, hleft.trans hruns⟩

end Stream
end DeviceSchema.Token
