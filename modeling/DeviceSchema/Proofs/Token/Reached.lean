import DeviceSchema.Proofs.Token.Reads

/-! # What every stream agrees on

A stream is made for a source and then read from in any order: tokens, texts in quotes,
integers and expressions, with lines given up and tokens handed back.  It is used as
intended if only a token that was read last is handed back, and a line is given up only when
nothing waits.  **Reached** are the streams that such use leads to, each with the token that
may be handed back now (`Reached`).  Looking ahead leaves the stream as it is and so is no
step.

Every reached stream reads the lines of its source, right behind the token that may be
handed back (`Reached.reads`).  So what it shows, what it gives and what is left are always
about the same tokens, those that stand in the text (`Reached.agreement`).
-/
namespace DeviceSchema.Token
open Text

/-! ## Reading in quotes -/

/-- A text in quotes begins after the first quote of the rest of the line and ends before
the second. -/
theorem Cursor.quoted?_eq_some {c : Cursor} {body : List Char} {after : Cursor}
    (h : c.quoted? = some (body, after)) :
    ∃ lead rest, c.rest = lead ++ '"' :: (body ++ '"' :: rest) ∧ '"' ∉ lead ∧ '"' ∉ body ∧
      after = ⟨c.line, c.column + lead.length + body.length + 2, rest, c.below⟩ := by
  unfold Cursor.quoted? at h
  dsimp only at h
  split at h
  · cases h
  · rename_i d afterOpen hopen
    split at h
    · cases h
    · rename_i e rest hclose
      cases h
      have hd := List.head?_dropWhile_not (· ≠ '"') c.rest
      have he := List.head?_dropWhile_not (· ≠ '"') afterOpen
      rw [hopen] at hd
      rw [hclose] at he
      obtain rfl : d = '"' := by simpa using hd
      obtain rfl : e = '"' := by simpa using he
      refine ⟨_, rest, ?_, ?_, ?_, rfl⟩
      · calc c.rest = c.rest.takeWhile (· ≠ '"') ++ c.rest.dropWhile (· ≠ '"') :=
              List.takeWhile_append_dropWhile.symm
          _ = c.rest.takeWhile (· ≠ '"') ++ '"' :: (afterOpen.takeWhile (· ≠ '"') ++
                afterOpen.dropWhile (· ≠ '"')) := by
              rw [hopen, List.takeWhile_append_dropWhile]
          _ = _ := by rw [hclose]
      · exact fun hmem => by simpa using List.mem_takeWhile_imp hmem
      · exact fun hmem => by simpa using List.mem_takeWhile_imp hmem

namespace Stream
variable {lines : List Line} {s : Stream} {held : Option Token} {t : Token}

/-- Going back to a token that waits leaves the tokens as they are. -/
theorem Reads.rewind (h : Reads lines s) :
    Reads lines s.rewind ∧ s.rewind.handedBack = none ∧ s.rewind.tokens = s.tokens := by
  cases h with
  | between hahead hcursor => exact ⟨.between hahead hcursor, rfl, rfl⟩
  | @back c line hword hin =>
    refine ⟨.between hin.below_suffix fun d hd => ?_, rfl, ?_⟩
    · cases hd
      exact ⟨hin, rfl⟩
    · have hwords := hword.lineTokens
      simp only [tokens, Stream.rewind, behind, ofCursor] at hwords ⊢
      simp [hwords]

/-- Only the tokens matter for what is read first, whether or not the stream is rewound. -/
theorem Reads.head?_tokens (h : Reads lines s) : s.next.1 = s.tokens.head? := by
  rcases h.next with ⟨s', hnext, -, hnil, -⟩ | ⟨t, s', hnext, -, heq⟩
  · rw [hnext, hnil, List.head?_nil]
  · rw [hnext, heq, List.head?_cons]

theorem Reads.tail_tokens (h : Reads lines s) : s.next.2.tokens = s.tokens.tail := by
  rcases h.next with ⟨s', hnext, -, hnil, hnil'⟩ | ⟨t, s', hnext, -, heq⟩
  · rw [hnext, hnil, hnil', List.tail_nil]
  · rw [hnext, heq, List.tail_cons]

/-- **Looking ahead shows the text of the first token.** -/
theorem Reads.peek (h : Reads lines s) : s.peek = s.tokens.head?.map Token.text := by
  cases h with
  | back => rfl
  | @between cursor ahead line hahead hcursor =>
    cases cursor with
    | none => exact firstWordOf_eq ahead
    | some c =>
      obtain ⟨-, rfl⟩ := hcursor c rfl
      have htokens : (⟨some c, c.below, line, none⟩ : Stream).tokens = c.tokens := rfl
      rw [htokens, Cursor.tokens]
      cases hw : c.word? with
      | none =>
        have hpeek : (⟨some c, c.below, line, none⟩ : Stream).peek = firstWordOf c.below := by
          simp only [Stream.peek, hw]
        rw [hpeek, firstWordOf_eq, Cursor.lineTokens_eq_nil hw, List.nil_append]
      | some w =>
        have hpeek : (⟨some c, c.below, line, none⟩ : Stream).peek = some (ofCursor w).text := by
          simp only [Stream.peek, hw]
        rw [hpeek, Cursor.lineTokens_eq hw, (Cursor.word?_eq_some hw).1.lineTokens]
        rfl

/-- **A text in quotes is found on the line of the next token, and without one nothing is
lost.** -/
theorem Reads.nextQuoted (h : Reads lines s) :
    (∃ s', s.nextQuoted = (none, s') ∧ Reads lines s' ∧ s'.tokens = s.tokens) ∨
      ∃ (c : Cursor) (body : List Char) (after : Cursor) (s' : Stream),
        s.nextQuoted = (some (String.ofList body), s') ∧ Reads lines s' ∧
        c.OnWord ∧ c.IsIn lines ∧ s.tokens = c.tokens ∧ c.quoted? = some (body, after) ∧
        s'.tokens = after.tokens := by
  obtain ⟨hrewind, hnone, htokens⟩ := h.rewind
  rcases hrewind.seek hnone with ⟨last, hseek, hnil⟩ | ⟨c, last, hseek, hword, hin, heq⟩
  · refine .inl ⟨⟨none, [], last, none⟩, by rw [Stream.nextQuoted, hseek], ?_, ?_⟩
    · exact .between List.nil_suffix fun c hc => by cases hc
    · exact hnil.symm.trans htokens
  · cases hquoted : c.quoted? with
    | none =>
      refine .inl ⟨⟨some c, c.below, last, none⟩, ?_, ?_, heq.symm.trans htokens⟩
      · simp only [Stream.nextQuoted, hseek, hquoted]
      · refine .between hin.below_suffix fun d hd => ?_
        cases hd
        exact ⟨hin, rfl⟩
    | some found =>
      obtain ⟨body, after⟩ := found
      obtain ⟨lead, rest, hrest, -, -, rfl⟩ := Cursor.quoted?_eq_some hquoted
      refine .inr ⟨c, body, _, ⟨some _, c.below, last, none⟩, ?_, ?_, hword, hin,
        htokens.symm.trans heq, hquoted, rfl⟩
      · simp only [Stream.nextQuoted, hseek, hquoted]
      · refine .between hin.below_suffix fun d hd => ?_
        cases hd
        have hgap : c.rest = (lead ++ '"' :: (body ++ ['"'])) ++ rest := by simp [hrest]
        refine ⟨hin.move rfl rfl hgap ?_, rfl⟩
        simp only [List.length_append, List.length_cons, List.length_nil]
        omega

/-! ## The other operations -/

theorem Reads.nextQuoted_reads (h : Reads lines s) : Reads lines s.nextQuoted.2 := by
  rcases h.nextQuoted with ⟨s', hnext, hreads, -⟩ | ⟨c, body, after, s', hnext, hreads, -⟩
  all_goals
    rw [hnext]
    exact hreads

theorem Reads.nextInt (h : Reads lines s) : Reads lines s.nextInt.2 := by
  unfold Stream.nextInt
  dsimp only
  split <;> exact h.next_behind.1

/-- What reading a token keeps up, joining tokens to an expression keeps up. -/
theorem gather_keeps (inv : Stream → Prop) (hkept : ∀ s, inv s → inv s.next.2) (h : inv s)
    (most : Nat) (text : String) : inv (s.gather most text).2 := by
  induction most generalizing s text with
  | zero => exact h
  | succ most ih =>
    have hbehind := hkept s h
    cases hquote : decide (text.length > 0) && s.peekStartsWith '"' with
    | true => rwa [gather_quote hquote]
    | false =>
      cases hnext : s.next with
      | mk found s' =>
        rw [hnext] at hbehind
        cases found with
        | none => rwa [gather_none hquote hnext]
        | some t =>
          rw [gather_token hquote hnext]
          split
          · exact hbehind
          · exact ih hbehind _

theorem Reads.readExpression (h : Reads lines s) : Reads lines s.readExpression.2 :=
  gather_keeps (Reads lines) (fun _ hs => hs.next_behind.1) h _ _

theorem Reads.nextExpression (h : Reads lines s) : Reads lines s.nextExpression.2 := by
  unfold Stream.nextExpression
  exact h.readExpression

theorem Reads.dropLine (h : Reads lines s) (hnone : s.handedBack = none) :
    Reads lines s.dropLine := by
  cases h with
  | back => cases hnone
  | between hahead => exact .between hahead fun c hc => by cases hc

/-- At the start all lines are ahead. -/
theorem eq_of_ofSource {source : String} (h : ofSource source = .ok s) :
    s = ⟨none, numberedLines source, 0, none⟩ := by
  unfold ofSource at h
  dsimp only at h
  split at h
  · cases h
  · cases h
    rfl

theorem reads_ofSource {source : String} (h : ofSource source = .ok s) :
    Reads (numberedLines source) s := by
  rw [eq_of_ofSource h]
  exact .between List.suffix_rfl fun c hc => by cases hc

/-! ## All tokens -/

theorem Reads.take (h : Reads lines s) (most : Nat) : (s.take most).1 = s.tokens.take most := by
  induction most generalizing s with
  | zero => rfl
  | succ most ih =>
    rw [Stream.take]
    rcases h.next with ⟨s', hnext, -, hnil, -⟩ | ⟨t, s', hnext, hbehind, heq⟩
    · rw [hnext, hnil]
      rfl
    · rw [hnext, heq, List.take_succ_cons, ← ih hbehind.reads]

/-- Every word has a character that is not blank. -/
theorem inked_firstWord_pos {c : Cursor} (h : c.OnWord) : 0 < inked (firstWord c.rest) := by
  obtain ⟨d, rest, hrest, hd⟩ := h
  rw [hrest, firstWord, List.takeWhile_cons_of_pos (by simp [hd]), inked,
    List.countP_cons_of_pos (by simp [hd])]
  exact Nat.succ_pos _

theorem length_lineTokens_le (c : Cursor) : c.lineTokens.length ≤ inked c.rest := by
  induction c using Cursor.lineTokens.induct with
  | case1 c hw => simp [Cursor.lineTokens_eq_nil hw]
  | case2 c w hw ih =>
    obtain ⟨hword, -, -, gap, hgap, -⟩ := Cursor.word?_eq_some hw
    have hpos := inked_firstWord_pos hword
    have hline := congrArg inked hgap
    have hrest := congrArg inked w.rest_eq
    rw [inked_append] at hline hrest
    rw [Cursor.lineTokens_eq hw, hword.lineTokens, List.length_cons]
    omega

theorem length_tokensOf_le (ahead : List Line) :
    (tokensOf ahead).length ≤ inked (ahead.flatMap Line.text) := by
  induction ahead with
  | nil => exact Nat.le_refl 0
  | cons next below ih =>
    have hline := length_lineTokens_le (Cursor.atLine next below)
    rw [tokensOf, List.length_append, List.flatMap_cons, inked_append]
    exact Nat.add_le_add hline ih

theorem foldl_inked (ahead : List Line) (total : Nat) :
    ahead.foldl (fun total line => total + inked line.text) total =
      total + inked (ahead.flatMap Line.text) := by
  induction ahead generalizing total with
  | nil => rfl
  | cons next below ih => rw [List.foldl_cons, ih, List.flatMap_cons, inked_append, Nat.add_assoc]

theorem unread_eq (s : Stream) : s.unread =
    (s.handedBack.map fun token => token.text.length).getD 0 +
      (s.cursor.map fun cursor => inked cursor.rest).getD 0 +
      inked (s.ahead.flatMap Line.text) := by
  rw [unread, foldl_inked, Nat.zero_add]

/-- There are no more tokens than characters that are not blank. -/
theorem Reads.length_tokens_le (h : Reads lines s) : s.tokens.length ≤ s.unread := by
  have hback : s.handedBack.toList.length ≤
      (s.handedBack.map fun token => token.text.length).getD 0 := by
    cases h with
    | between => exact Nat.le_refl 0
    | @back c line hword hin =>
      have hpos := List.length_pos_iff.mpr hword.firstWord_ne_nil
      rw [← Cursor.length_ofCursor] at hpos
      exact hpos
  have hline : ((s.cursor.map Cursor.lineTokens).getD []).length ≤
      (s.cursor.map fun cursor => inked cursor.rest).getD 0 := by
    cases s.cursor with
    | none => exact Nat.le_refl 0
    | some c => exact length_lineTokens_le c
  have hbelow := length_tokensOf_le s.ahead
  rw [tokens, unread_eq, List.length_append, List.length_append]
  omega

theorem Reads.drain (h : Reads lines s) : s.drain.1 = s.tokens := by
  rw [Stream.drain, h.take]
  exact List.take_of_length_le (h.length_tokens_le.trans (Nat.le_succ _))

/-! ## Reached streams -/

/-- The streams that reading from a source leads to, each with the token that was read last
if nothing has happened since: this one may be handed back. -/
inductive Reached (source : String) : Option Token → Stream → Prop
  | start {s : Stream} (h : ofSource source = .ok s) : Reached source none s
  | next {held : Option Token} {s : Stream} (h : Reached source held s) :
      Reached source s.next.1 s.next.2
  | nextQuoted {held : Option Token} {s : Stream} (h : Reached source held s) :
      Reached source none s.nextQuoted.2
  | nextInt {held : Option Token} {s : Stream} (h : Reached source held s) :
      Reached source none s.nextInt.2
  | readExpression {held : Option Token} {s : Stream} (h : Reached source held s) :
      Reached source none s.readExpression.2
  | dropLine {held : Option Token} {s : Stream} (h : Reached source held s)
      (hnone : s.handedBack = none) : Reached source none s.dropLine
  | handBack {t : Token} {s s' : Stream} (h : Reached source (some t) s)
      (hback : s.handBack t = .ok s') : Reached source none s'

/-- Every reached stream reads the lines of its source, right behind the token that may be
handed back. -/
theorem Reached.reads {source : String} (h : Reached source held s) :
    Reads (numberedLines source) s ∧ ∀ t ∈ held, Behind (numberedLines source) t s := by
  induction h with
  | start h => exact ⟨reads_ofSource h, fun t ht => by cases ht⟩
  | next h ih => exact ih.1.next_behind
  | nextQuoted h ih => exact ⟨ih.1.nextQuoted_reads, fun t ht => by cases ht⟩
  | nextInt h ih => exact ⟨ih.1.nextInt, fun t ht => by cases ht⟩
  | readExpression h ih => exact ⟨ih.1.readExpression, fun t ht => by cases ht⟩
  | dropLine h hnone ih => exact ⟨ih.1.dropLine hnone, fun t ht => by cases ht⟩
  | @handBack t s s' h hback ih =>
    obtain ⟨s'', hok, hreads, -⟩ := (ih.2 t rfl).handBack
    obtain rfl : s'' = s' := Except.ok.inj (hok.symm.trans hback)
    exact ⟨hreads, fun t ht => by cases ht⟩

/-- What a stream over some lines shows, gives and leaves. -/
structure Agreement (lines : List Line) (held : Option Token) (s : Stream) : Prop where
  /-- The tokens that stand in the text are those that are read one after another. -/
  drain : s.drain.1 = s.tokens
  first : s.next.1 = s.tokens.head?
  others : s.next.2.tokens = s.tokens.tail
  /-- What is shown is what would be read. -/
  peek : s.peek = s.next.1.map Token.text
  /-- A token that was handed back is read again, and then the stream is as it was. -/
  handBack : ∀ t, held = some t → ∃ s', s.handBack t = .ok s' ∧ s'.next = (some t, s)
  unquoted : s.nextQuoted.1 = none → s.nextQuoted.2.tokens = s.tokens
  /-- A text in quotes stands between the first two quotes from the next token on, on the
  line of that token, and reading goes on behind the second. -/
  quoted : ∀ q, s.nextQuoted.1 = some q →
    ∃ t lead rest, s.next.1 = some t ∧ t.start.OnWord ∧ t.start.IsIn lines ∧
      t.start.rest = lead ++ '"' :: (q.toList ++ '"' :: rest) ∧ '"' ∉ lead ∧ '"' ∉ q.toList ∧
      s.nextQuoted.2.tokens = Cursor.tokens
        ⟨t.line, t.column + lead.length + q.toList.length + 2, rest, t.start.below⟩

/-- **However a stream is used, what it shows, what it gives and what it leaves are about
the same tokens.** -/
theorem Reached.agreement {source : String} (h : Reached source held s) :
    Agreement (numberedLines source) held s := by
  obtain ⟨hreads, hheld⟩ := h.reads
  refine ⟨hreads.drain, hreads.head?_tokens, hreads.tail_tokens, ?_, fun t ht => ?_, ?_, ?_⟩
  · rw [hreads.peek, hreads.head?_tokens]
  · obtain ⟨s', hok, -, hnext⟩ := (hheld t ht).handBack
    exact ⟨s', hok, hnext⟩
  all_goals
    rcases hreads.nextQuoted with ⟨s', hnext, -, heq⟩ |
      ⟨c, body, after, s', hnext, -, hword, hin, htokens, hquoted, heq⟩
    all_goals rw [hnext]
  · exact fun _ => heq
  · exact fun hnone => by cases hnone
  · exact fun q hq => by cases hq
  · rintro q hq
    obtain ⟨lead, rest, hrest, hlead, hbody, rfl⟩ := Cursor.quoted?_eq_some hquoted
    cases hq
    have hfirst : s.next.1 = some (ofCursor c) := by
      rw [hreads.head?_tokens, htokens, hword.tokens, List.head?_cons]
    refine ⟨ofCursor c, lead, rest, hfirst, hword, hin, ?_, hlead, ?_, ?_⟩
    all_goals simp only [String.toList_ofList]
    · exact hrest
    · exact hbody
    · exact heq

/-- The second token of a source, which may be handed back. -/
theorem Reached.agreement_small : ∃ t s, t.text = "\"b" ∧
    Reached "a \"b c\" d" (some t) s ∧ Agreement (numberedLines "a \"b c\" d") (some t) s := by
  obtain ⟨s, hs, t, ht, htext⟩ : ∃ s, ofSource "a \"b c\" d" = .ok s ∧
      ∃ t, s.next.2.next.1 = some t ∧ t.text = "\"b" :=
    ⟨⟨none, numberedLines "a \"b c\" d", 0, none⟩, rfl, _, rfl, by decide +kernel⟩
  have hreached := (Reached.start hs).next.next
  rw [ht] at hreached
  exact ⟨t, _, htext, hreached, Reached.agreement hreached⟩

end Stream
end DeviceSchema.Token
