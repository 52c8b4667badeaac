import DeviceSchema.Proofs.Token.Left

/-! # Streams that differ in how they end

Two texts are **tied** if they are the same up to their ends (`Tied`).  Reading does not go past
the beginning of the ends as long as no less is left than the first end.  If looking ahead does
not see the difference either (`Indistinct`), then two streams with tied texts give the same
tokens and the same texts in quotes, and what is left stays tied (`Tied.next` and so on).

Two cases matter: nothing comes after the texts, which are then the same; and both ends begin
with the same header, with a word and a text in quotes (`indistinct_of_header`).
-/
namespace DeviceSchema.Token
open Text

/-- Looking ahead, also past some text, does not tell the two ends apart. -/
structure Indistinct (t₁ t₂ : List Char) : Prop where
  head : t₂.head? = t₁.head?
  word (mid : List Char) : wordAhead (mid ++ t₂) = wordAhead (mid ++ t₁)
  quoted (mid : List Char) (h : ∀ body rest, ¬ Quotes (mid ++ t₁) body rest) :
    ∀ body rest, ¬ Quotes (mid ++ t₂) body rest

/-- Two texts that are the same up to the ends `t₁` and `t₂`. -/
def Tied (t₁ t₂ x y : List Char) : Prop := ∃ mid, x = mid ++ t₁ ∧ y = mid ++ t₂

section Ends
variable {t₁ t₂ x y front : List Char}

theorem indistinct_refl (t : List Char) : Indistinct t t where
  head := rfl
  word _ := rfl
  quoted _ h := h

theorem tied_nil : Tied [] [] x y ↔ x = y := by simp [Tied, eq_comm]

/-- What is no shorter than the end includes it. -/
theorem Tied.drop (h : Tied t₁ t₂ (front ++ x) y) (hlength : t₁.length ≤ x.length) :
    ∃ y', y = front ++ y' ∧ Tied t₁ t₂ x y' := by
  obtain ⟨mid, hx, rfl⟩ := h
  rcases List.append_eq_append_iff.mp hx with ⟨more, rfl, rfl⟩ | ⟨more, rfl, hends⟩
  · exact ⟨more ++ t₂, List.append_assoc _ _ _, more, rfl, rfl⟩
  · have hnil : more = [] := by
      rw [hends, List.length_append] at hlength
      exact List.eq_nil_of_length_eq_zero (by omega)
    subst hnil
    exact ⟨t₂, by simp, [], by simpa using hends.symm, rfl⟩

theorem Tied.cancel (h : Tied t₁ t₂ (front ++ x) (front ++ y)) (hlength : t₁.length ≤ x.length) :
    Tied t₁ t₂ x y := by
  obtain ⟨y', hy, htied⟩ := h.drop hlength
  rwa [List.append_cancel_left hy]

theorem Tied.symm (h : Tied t₁ t₂ x y) : Tied t₂ t₁ y x := by
  obtain ⟨mid, hx, hy⟩ := h
  exact ⟨mid, hy, hx⟩

theorem Tied.eq_end (h : Tied t₁ t₂ t₁ y) : y = t₂ := by
  obtain ⟨mid, hmid, rfl⟩ := h
  rw [List.self_eq_append_left.mp hmid, List.nil_append]

theorem Tied.head (hends : Indistinct t₁ t₂) (h : Tied t₁ t₂ x y) : y.head? = x.head? := by
  obtain ⟨mid, rfl, rfl⟩ := h
  rw [List.head?_append, List.head?_append, hends.head]

theorem Tied.wordAhead (hends : Indistinct t₁ t₂) (h : Tied t₁ t₂ x y) :
    Token.wordAhead y = Token.wordAhead x := by
  obtain ⟨mid, rfl, rfl⟩ := h
  exact hends.word mid

/-- A text that begins with a character that shows has no blanks to skip. -/
theorem skipBlanks_of_head (h : ∀ c, x.head? = some c → isBlank c = false) : skipBlanks x = x := by
  cases x with
  | nil => rfl
  | cons c x => rw [skipBlanks, List.dropWhile_cons_of_neg (by simp [h c rfl])]

theorem skipBlanks_head {c : Char} (h : (skipBlanks x).head? = some c) : isBlank c = false := by
  have hhead := List.head?_dropWhile_not isBlank x
  rw [← skipBlanks, h] at hhead
  simpa using hhead

/-- The blanks before what is left are the same. -/
theorem Tied.skipBlanks (hends : Indistinct t₁ t₂) (h : Tied t₁ t₂ x y)
    (hlength : t₁.length ≤ (skipBlanks x).length) :
    Tied t₁ t₂ (Text.skipBlanks x) (Text.skipBlanks y) := by
  have hx : x = x.takeWhile isBlank ++ Text.skipBlanks x := List.takeWhile_append_dropWhile.symm
  rw [hx] at h
  obtain ⟨y', rfl, htied⟩ := h.drop hlength
  rw [skipBlanks_append fun c hc => List.mem_takeWhile_imp hc,
    skipBlanks_of_head (x := y') fun c hc => skipBlanks_head (x := x) (by rwa [htied.head hends] at hc)]
  exact htied

theorem Tied.leads (hends : Indistinct t₁ t₂) (h : Tied t₁ t₂ x y) {word rest : List Char}
    (hleads : Leads x word rest) (hlength : t₁.length ≤ (word ++ rest).length) :
    ∃ rest', Leads y word rest' ∧ Tied t₁ t₂ (word ++ rest) (word ++ rest') := by
  rw [← hleads.skipBlanks] at hlength
  have htied := h.skipBlanks hends hlength
  have hahead := h.wordAhead hends
  rw [hleads.wordAhead] at hahead
  rcases blank_or_leads y with hall | ⟨word', rest', hleads'⟩
  · rw [wordAhead_blank hall] at hahead
    cases hahead
  · rw [hleads'.wordAhead, Option.some.injEq, String.ofList_inj] at hahead
    subst hahead
    rw [hleads.skipBlanks, hleads'.skipBlanks] at htied
    exact ⟨rest', hleads', htied⟩

theorem Tied.quotes (h : Tied t₁ t₂ x y) {body rest : List Char} (hquotes : Quotes x body rest)
    (hlength : t₁.length ≤ rest.length) : ∃ rest', Quotes y body rest' ∧ Tied t₁ t₂ rest rest' := by
  obtain ⟨lead, hlead, hbody, rfl⟩ := hquotes
  have hsplit : lead ++ '"' :: (body ++ '"' :: rest) = (lead ++ '"' :: (body ++ ['"'])) ++ rest := by
    simp
  rw [hsplit] at h
  obtain ⟨rest', rfl, htied⟩ := h.drop hlength
  exact ⟨rest', ⟨lead, hlead, hbody, by simp⟩, htied⟩

theorem Tied.not_quotes (hends : Indistinct t₁ t₂) (h : Tied t₁ t₂ x y)
    (hquotes : ∀ body rest, ¬ Quotes x body rest) (body rest : List Char) :
    ¬ Quotes y body rest := by
  obtain ⟨mid, rfl, rfl⟩ := h
  exact hends.quoted mid hquotes body rest

/-- The rest of the first line is the same. -/
theorem Tied.line (h : Tied t₁ t₂ x y) (hlength : t₁.length ≤ (belowLine x).length)
    (hmem : '\n' ∈ x) : Tied t₁ t₂ (belowLine x) (belowLine y) := by
  obtain ⟨before, after, rfl, hbefore⟩ := List.eq_append_cons_of_mem hmem
  rw [belowLine_append hbefore] at hlength ⊢
  have hsplit : before ++ '\n' :: after = (before ++ ['\n']) ++ after := by simp
  rw [hsplit] at h
  obtain ⟨y', rfl, htied⟩ := h.drop hlength
  rw [List.append_assoc, List.singleton_append, belowLine_append hbefore]
  exact htied

end Ends

/-! ## Headers -/

section Headers
variable {header gap word more : List Char} {c : Char}

/-- A text with a word and a blank behind it does not end with its first word. -/
theorem leads_append (gap more : List Char) (hgap : isBlank c = true) (hword : IsWord word)
    (mid : List Char) :
    ∃ first rest, ∀ t, Leads (mid ++ (gap ++ word ++ c :: more) ++ t) first (rest ++ t) := by
  obtain ⟨d, tail, hd, hshows⟩ := hword.exists_cons
  have hskip : skipBlanks (mid ++ (gap ++ word)) ≠ [] := by
    intro hnil
    have hblank := List.dropWhile_eq_nil_iff.mp hnil d (by simp [hd])
    rw [hshows] at hblank
    cases hblank
  have hsplit : mid ++ (gap ++ word ++ c :: more) = (mid ++ (gap ++ word)) ++ c :: more := by simp
  rcases blank_or_leads (mid ++ (gap ++ word ++ c :: more)) with hall | ⟨first, rest, hleads⟩
  · have hblank := hall d (by simp [hd])
    rw [hshows] at hblank
    cases hblank
  have hrest : rest ≠ [] := by
    rintro rfl
    have htext := hleads.skipBlanks
    rw [hsplit, skipBlanks, List.dropWhile_append, if_neg (by rwa [List.isEmpty_iff]),
      List.append_nil] at htext
    have hc := hleads.isWord.2 c (by rw [← htext]; simp)
    rw [hgap] at hc
    cases hc
  obtain ⟨e, tail', rfl⟩ := List.exists_cons_of_ne_nil hrest
  refine ⟨first, e :: tail', fun t => ⟨hleads.isWord, hleads.parted, ?_⟩⟩
  obtain ⟨gap', hgap', htext⟩ := hleads.gap
  exact ⟨gap', hgap', by rw [htext]; simp⟩

/-- **Behind a header with a word and a text in quotes, two texts are not told apart.** -/
theorem indistinct_of_header (hgap : isBlank c = true) (hword : IsWord word)
    (hheader : header = gap ++ word ++ c :: more) (hquotes : 2 ≤ header.count '"')
    (u₁ u₂ : List Char) : Indistinct (header ++ u₁) (header ++ u₂) where
  head := by
    rw [List.head?_append, List.head?_append, hheader]
    cases gap <;> cases word <;> rfl
  word mid := by
    obtain ⟨first, rest, hleads⟩ := leads_append gap more hgap hword mid
    rw [← List.append_assoc, ← List.append_assoc, hheader, (hleads u₁).wordAhead,
      (hleads u₂).wordAhead]
  quoted mid h := by
    rintro body rest ⟨lead, hlead, hbody, htext⟩
    have hsplit : (mid ++ header) ++ u₂ = (lead ++ '"' :: (body ++ ['"'])) ++ rest := by
      rw [List.append_assoc, htext]
      simp
    rcases List.append_eq_append_iff.mp hsplit with ⟨tail, hfront, -⟩ | ⟨tail, hfront, rfl⟩
    · -- The header would end before the second quote, although it has two itself.
      rcases List.eq_nil_or_concat tail with rfl | ⟨init, d, rfl⟩
      · refine h body u₁ ⟨lead, hlead, hbody, ?_⟩
        rw [← List.append_assoc, ← List.append_nil (mid ++ header), ← hfront]
        simp
      · have hconcat : (lead ++ '"' :: body) ++ ['"'] = ((mid ++ header) ++ init) ++ [d] := by
          simpa using hfront
        have hlast : d = '"' := (List.singleton_inj.mp (List.append_inj' hconcat rfl).2).symm
        have hcount := congrArg (List.count '"') hfront
        have hzero : ∀ {text : List Char}, (∀ c ∈ text, c ≠ '"' ∧ c ≠ '\n') →
            text.count '"' = 0 := fun h => List.count_eq_zero.mpr fun hmem => (h _ hmem).1 rfl
        simp [hzero hlead, hzero hbody, hlast, List.count_append] at hcount
        omega
    · refine h body (tail ++ u₁) ⟨lead, hlead, hbody, ?_⟩
      rw [← List.append_assoc, hfront]
      simp

end Headers

/-! ## Streams -/

namespace Stream
variable {t₁ t₂ : List Char} {s₁ s₂ : Stream}

/-- Two streams whose texts are tied. -/
structure Abreast (t₁ t₂ : List Char) (s₁ s₂ : Stream) : Prop where
  left : s₁.Sound
  right : s₂.Sound
  tied : Tied t₁ t₂ s₁.left s₂.left

theorem Abreast.symm (h : Abreast t₁ t₂ s₁ s₂) : Abreast t₂ t₁ s₂ s₁ := ⟨h.right, h.left, h.tied.symm⟩

theorem Abreast.peek (h : Abreast t₁ t₂ s₁ s₂) (hends : Indistinct t₁ t₂) : s₂.peek = s₁.peek := by
  rw [h.left.peek, h.right.peek, h.tied.wordAhead hends]

theorem Abreast.peekStartsWith (h : Abreast t₁ t₂ s₁ s₂) (hends : Indistinct t₁ t₂) (c : Char) :
    s₂.peekStartsWith c = s₁.peekStartsWith c := by
  rw [Stream.peekStartsWith, Stream.peekStartsWith, h.peek hends]

theorem Abreast.peekInt (h : Abreast t₁ t₂ s₁ s₂) (hends : Indistinct t₁ t₂) :
    s₂.peekInt = s₁.peekInt := by
  rw [Stream.peekInt, Stream.peekInt, h.peek hends]

/-- Where the one stream has no token left, the other has none either. -/
theorem Abreast.next_none {s₁' : Stream} (h : Abreast t₁ t₂ s₁ s₂) (hends : Indistinct t₁ t₂)
    (hnext : s₁.next = (none, s₁')) (hlength : t₁.length ≤ s₁'.left.length) :
    ∃ s₂', s₂.next = (none, s₂') ∧ Abreast t₁ t₂ s₁' s₂' := by
  rcases h.left.next with ⟨hall, s, hs, hsound, hnil⟩ | ⟨word, rest, c, line, -, -, hs⟩
  · obtain ⟨-, rfl⟩ := Prod.mk.inj (hs.symm.trans hnext)
    rw [hnil, List.length_nil] at hlength
    -- The first text has no end, so the second has none.
    obtain rfl : t₁ = [] := List.eq_nil_of_length_eq_zero (Nat.le_zero.mp hlength)
    obtain rfl : t₂ = [] := List.head?_eq_none_iff.mp hends.head
    rcases h.right.next with ⟨-, s', hs', hsound', hnil'⟩ | ⟨word, rest, c, line, hleads, -, -⟩
    · exact ⟨s', hs', hsound, hsound', by rw [hnil, hnil']; exact tied_nil.mpr rfl⟩
    · have hahead := hleads.wordAhead
      rw [h.tied.wordAhead hends, wordAhead_blank hall] at hahead
      cases hahead
  · rw [hnext] at hs
    cases hs

/-- **The next tokens are the same words.** -/
theorem Abreast.next {word rest₁ : List Char} (h : Abreast t₁ t₂ s₁ s₂)
    (hends : Indistinct t₁ t₂) (hleads : Leads s₁.left word rest₁)
    (hlength : t₁.length ≤ (word ++ rest₁).length) :
    ∃ c₂ rest₂ line₂, s₂.next = (some (ofCursor c₂), behind c₂ line₂) ∧ c₂.Stands word rest₂ ∧
      Tied t₁ t₂ (word ++ rest₁) (word ++ rest₂) := by
  obtain ⟨rest₂, hleads₂, htied⟩ := h.tied.leads hends hleads hlength
  rcases h.right.next with ⟨hall, -⟩ | ⟨word', rest', c₂, line₂, hleads', hc₂, hnext⟩
  · have hahead := hleads₂.wordAhead
    rw [wordAhead_blank hall] at hahead
    cases hahead
  · obtain ⟨rfl, rfl⟩ := hleads₂.unique hleads'
    exact ⟨c₂, rest₂, line₂, hnext, hc₂, htied⟩

/-- **The same texts are read in quotes.** -/
theorem Abreast.nextQuoted (h : Abreast t₁ t₂ s₁ s₂) (hends : Indistinct t₁ t₂)
    (hlength : t₁.length ≤ s₁.nextQuoted.2.left.length) :
    s₂.nextQuoted.1 = s₁.nextQuoted.1 ∧ Abreast t₁ t₂ s₁.nextQuoted.2 s₂.nextQuoted.2 := by
  obtain ⟨s₁', hsound₁, hnext₁⟩ := h.left.nextQuoted
  obtain ⟨s₂', hsound₂, hnext₂⟩ := h.right.nextQuoted
  have hskip (hle : t₁.length ≤ (skipBlanks s₁.left).length) := h.tied.skipBlanks hends hle
  rcases hnext₁ with ⟨body, hnext₁, hquotes⟩ | ⟨hnext₁, hleft₁, hnone⟩
  · rw [hnext₁] at hlength ⊢
    have hle : s₁'.left.length ≤ (skipBlanks s₁.left).length := by
      obtain ⟨lead, -, -, htext⟩ := hquotes
      rw [htext]
      simp
      omega
    obtain ⟨rest, hquotes', htied⟩ := (hskip (hlength.trans hle)).quotes hquotes hlength
    rcases hnext₂ with ⟨body', hnext₂, hquotes₂⟩ | ⟨-, -, hnone⟩
    · obtain ⟨rfl, rfl⟩ := hquotes'.unique hquotes₂
      rw [hnext₂]
      exact ⟨rfl, hsound₁, hsound₂, htied⟩
    · exact absurd hquotes' (hnone _ _)
  · rw [hnext₁] at hlength ⊢
    have htied := hskip (hleft₁ ▸ hlength)
    rcases hnext₂ with ⟨body', -, hquotes₂⟩ | ⟨hnext₂, hleft₂, -⟩
    · exact absurd hquotes₂ (htied.not_quotes hends hnone _ _)
    · rw [hnext₂]
      exact ⟨rfl, hsound₁, hsound₂, by rwa [hleft₁, hleft₂]⟩

/-- Behind a token the texts are tied as long as no less is left than the end. -/
theorem Abreast.behind {c₁ c₂ : Cursor} {word rest₁ rest₂ : List Char} (hc₁ : c₁.Stands word rest₁)
    (hc₂ : c₂.Stands word rest₂) (htied : Tied t₁ t₂ (word ++ rest₁) (word ++ rest₂))
    (line₁ line₂ : Nat) (hlength : t₁.length ≤ rest₁.length) :
    Abreast t₁ t₂ (behind c₁ line₁) (behind c₂ line₂) := by
  obtain ⟨hsound₁, hleft₁⟩ := behind_left hc₁ line₁
  obtain ⟨hsound₂, hleft₂⟩ := behind_left hc₂ line₂
  exact ⟨hsound₁, hsound₂, by rw [hleft₁, hleft₂]; exact htied.cancel hlength⟩

/-- **Reading a token from two streams gives the same word**, or none from either. -/
theorem Abreast.next_same (h : Abreast t₁ t₂ s₁ s₂) (hends : Indistinct t₁ t₂)
    (hlength : t₁.length ≤ s₁.next.2.left.length) :
    s₂.next.1.map Token.text = s₁.next.1.map Token.text ∧ Abreast t₁ t₂ s₁.next.2 s₂.next.2 := by
  rcases h.left.next with ⟨-, s₁', hs₁, -, -⟩ | ⟨word, rest₁, c₁, line₁, hleads, hc₁, hs₁⟩
  · rw [hs₁] at hlength ⊢
    obtain ⟨s₂', hs₂, habreast⟩ := h.next_none hends hs₁ hlength
    rw [hs₂]
    exact ⟨rfl, habreast⟩
  · rw [hs₁] at hlength ⊢
    have hrest : t₁.length ≤ rest₁.length := by rwa [(behind_left hc₁ line₁).2] at hlength
    obtain ⟨c₂, rest₂, line₂, hs₂, hc₂, htied⟩ := h.next hends hleads
      (hrest.trans (by simp))
    rw [hs₂]
    exact ⟨congrArg some (hc₂.text.trans hc₁.text.symm),
      Abreast.behind hc₁ hc₂ htied line₁ line₂ hrest⟩

/-- An integer is read from the one if and only if it is read from the other. -/
theorem Abreast.nextInt (h : Abreast t₁ t₂ s₁ s₂) (hends : Indistinct t₁ t₂)
    (hlength : t₁.length ≤ s₁.nextInt.2.left.length) :
    s₂.nextInt.1.toOption = s₁.nextInt.1.toOption ∧ Abreast t₁ t₂ s₁.nextInt.2 s₂.nextInt.2 := by
  have hstream : ∀ s : Stream, s.nextInt.2 = s.next.2 := by
    intro s
    unfold Stream.nextInt
    dsimp only
    split <;> rfl
  rw [hstream] at hlength
  obtain ⟨htext, habreast⟩ := h.next_same hends hlength
  refine ⟨?_, by rwa [hstream, hstream]⟩
  unfold Stream.nextInt
  dsimp only
  rw [htext]
  cases int32? ((s₁.next.1.map Token.text).getD "").toList <;> rfl

/-- **The same tokens are joined.** -/
theorem Abreast.gather (h : Abreast t₁ t₂ s₁ s₂) (hends : Indistinct t₁ t₂) (tokens : Nat)
    (text : String) (hlength : t₁.length ≤ (s₁.gather tokens text).2.left.length) :
    (s₂.gather tokens text).1 = (s₁.gather tokens text).1 ∧
      Abreast t₁ t₂ (s₁.gather tokens text).2 (s₂.gather tokens text).2 := by
  induction tokens generalizing s₁ s₂ text with
  | zero => exact ⟨rfl, h⟩
  | succ tokens ih =>
    have hsees := h.peekStartsWith hends '"'
    cases hquote : decide (text.length > 0) && s₁.peekStartsWith '"' with
    | true =>
      rw [gather_quote hquote, gather_quote (hsees ▸ hquote)]
      exact ⟨rfl, h⟩
    | false =>
    have hquote' : (decide (text.length > 0) && s₂.peekStartsWith '"') = false := by
      rw [hsees, hquote]
    have hsound := h.left.next_le.1
    have hnext (hle : t₁.length ≤ s₁.next.2.left.length) := h.next_same hends hle
    cases hs₁ : s₁.next with
    | mk found s₁' =>
    cases hs₂ : s₂.next with
    | mk found' s₂' =>
    rw [hs₁, hs₂] at hnext
    rw [hs₁] at hsound
    cases found with
    | none =>
      rw [gather_none hquote hs₁] at hlength ⊢
      obtain ⟨hnone, habreast⟩ := hnext hlength
      obtain rfl : found' = none := by simpa using hnone
      rw [gather_none hquote' hs₂]
      exact ⟨rfl, habreast⟩
    | some token =>
      rw [gather_token hquote hs₁] at hlength ⊢
      -- However the joining ends, it leaves no more than there is behind the token.
      have hle : t₁.length ≤ s₁'.left.length := by
        refine hlength.trans ?_
        split
        · exact Nat.le_refl _
        · exact (hsound.gather_le _ _).2
      obtain ⟨htext, habreast⟩ := hnext hle
      obtain ⟨token', rfl, hword⟩ : ∃ token', found' = some token' ∧ token'.text = token.text :=
        Option.map_eq_some_iff.mp htext
      rw [gather_token hquote' hs₂, hword]
      cases hverdict : verdict? (text ++ token.text) with
      | some result => exact ⟨rfl, habreast⟩
      | none =>
        rw [hverdict] at hlength
        exact ih habreast _ hlength

theorem Abreast.nextExpression (h : Abreast t₁ t₂ s₁ s₂) (hends : Indistinct t₁ t₂)
    (hlength : t₁.length ≤ s₁.nextExpression.2.left.length) :
    s₂.nextExpression.1 = s₁.nextExpression.1 ∧
      Abreast t₁ t₂ s₁.nextExpression.2 s₂.nextExpression.2 := by
  obtain ⟨hresult, habreast⟩ := h.gather hends (Ceiling.expressionLength + 1) "" hlength
  exact ⟨congrArg (fun result => result.bind Arithmetic.evaluate) hresult, habreast⟩

end Stream
end DeviceSchema.Token
