import DeviceSchema.Proofs.Token.Left

/-! # Expressions in a text

A text is an expression as a stream reads it if its parentheses balance at its end and before no
blank in it (`IsExpression`).  Its words are joined, whatever stands behind it: this is the text
without its blanks (`inkOf`), and it is read unless it is too long (`gather_balanced`).
-/
namespace DeviceSchema.Token
open Text
open Token.Stream (openParens)

/-- The characters of a text that are not blank. -/
def inkOf (text : List Char) : List Char := text.filter fun c => !isBlank c

/-- With `depth` parentheses open before it, the text closes them all, but not before a blank. -/
def Balances (depth : Int) (text : List Char) : Prop :=
  depth + openParens text = 0 ∧
    ∀ front c rest, text = front ++ c :: rest → isBlank c = true → 0 < depth + openParens front

/-- A balanced expression, in one or more words. -/
structure IsExpression (text : List Char) : Prop where
  head : text.head? = some '('
  noQuote : '"' ∉ text
  balances : Balances 0 text

/-- The value of an expression, if it has one. -/
def valueOf (text : List Char) : Option Int :=
  if (inkOf text).length ≤ Ceiling.expressionLength then
    (Arithmetic.evaluate (String.ofList (inkOf text))).toOption
  else none

section Parens
variable {text more gap word rest : List Char} {depth : Int}

theorem openParens_append (text more : List Char) :
    openParens (text ++ more) = openParens text + openParens more := by
  simp only [openParens, List.count_append]
  omega

theorem openParens_blank (h : ∀ c ∈ gap, isBlank c = true) : openParens gap = 0 := by
  have hnone (c : Char) (hc : isBlank c = false) : gap.count c = 0 :=
    List.count_eq_zero.mpr fun hmem => by
      rw [h c hmem] at hc
      cases hc
  rw [openParens, hnone '(' (by decide), hnone ')' (by decide)]
  rfl

theorem inkOf_append (text more : List Char) : inkOf (text ++ more) = inkOf text ++ inkOf more :=
  List.filter_append ..

theorem inkOf_blank (h : ∀ c ∈ gap, isBlank c = true) : inkOf gap = [] :=
  List.filter_eq_nil_iff.mpr fun c hc => by simp [h c hc]

theorem IsWord.inkOf (h : IsWord word) : Token.inkOf word = word :=
  List.filter_eq_self.mpr fun c hc => by simp [h.2 c hc]

theorem inkOf_word (hgap : ∀ c ∈ gap, isBlank c = true) (hword : IsWord word) (more : List Char) :
    inkOf (gap ++ (word ++ more)) = word ++ inkOf more := by
  rw [inkOf_append, inkOf_append, inkOf_blank hgap, hword.inkOf, List.nil_append]

/-- Behind a word that does not close all, as much is open as before. -/
theorem Balances.behind (h : Balances depth (gap ++ (word ++ rest)))
    (hgap : ∀ c ∈ gap, isBlank c = true) : Balances (depth + openParens word) rest := by
  obtain ⟨htotal, hfront⟩ := h
  rw [openParens_append, openParens_append, openParens_blank hgap] at htotal
  refine ⟨by omega, fun front c after hrest hc => ?_⟩
  have hopen := hfront (gap ++ (word ++ front)) c after (by simp [hrest]) hc
  rw [openParens_append, openParens_append, openParens_blank hgap] at hopen
  omega

/-- Before a blank something is open. -/
theorem Balances.open_pos (h : Balances depth rest) (hne : rest ≠ []) (hparted : Parted rest) :
    0 < depth := by
  obtain ⟨c, more, rfl⟩ := List.exists_cons_of_ne_nil hne
  have hopen := h.2 [] c more rfl (hparted c rfl)
  rwa [show openParens [] = 0 from rfl, Int.add_zero] at hopen

/-- What is blank closes nothing. -/
theorem Balances.exists_ink (h : Balances depth text) (hopen : 0 < depth) :
    ∃ c ∈ text, isBlank c = false := by
  by_contra hnone
  have hblank : openParens text = 0 := openParens_blank fun c hc => by
    simpa using fun hshows => hnone ⟨c, hc, hshows⟩
  have htotal := h.1
  omega

end Parens

namespace Stream
variable {s : Stream} {lead text word rest : List Char}

/-- What joining an expression gives. -/
inductive Joins (joined rest : List Char) (result : Except Arithmetic.Failure String × Stream) : Prop
  | read (hfits : joined.length ≤ Ceiling.expressionLength)
      (hvalue : result.1 = .ok (String.ofList joined)) (hsound : result.2.Sound)
      (hleft : result.2.left = rest) : Joins joined rest result
  | tooLong (hlong : Ceiling.expressionLength < joined.length) {failure : Arithmetic.Failure}
      (hvalue : result.1 = .error failure) : Joins joined rest result

/-- The first word of the text is joined, if it is no quotation. -/
theorem Sound.gather_word (hs : s.Sound) (hleads : Leads s.left word rest) (hquote : '"' ∉ word)
    (front : List Char) : ∃ s', s'.Sound ∧ s'.left = rest ∧
      ∀ tokens, s.gather (tokens + 1) (String.ofList front) =
        match verdict? (String.ofList (front ++ word)) with
        | some result => (result, s')
        | none => s'.gather tokens (String.ofList (front ++ word)) := by
  obtain ⟨d, tail, hcons, hd⟩ := hleads.isWord.exists_cons
  have hnotQuote : (decide ((String.ofList front).length > 0) && s.peekStartsWith '"') = false := by
    have hne : d ≠ '"' := fun he => hquote (by simp [hcons, he])
    rw [Stream.peekStartsWith, hs.peek, hleads.wordAhead, hcons]
    simp [hne]
  rcases hs.next with ⟨hall, -⟩ | ⟨word', rest', c, line, hleads', hc, hnext⟩
  · obtain ⟨gap, -, hleft⟩ := hleads.gap
    have hblank := hall d (by rw [hleft, hcons]; simp)
    rw [hd] at hblank
    cases hblank
  obtain ⟨rfl, rfl⟩ := hleads.unique hleads'
  obtain ⟨hsound, hleft⟩ := behind_left hc line
  have hjoined : String.ofList front ++ (ofCursor c).text = String.ofList (front ++ word) := by
    rw [hc.text, String.ofList_append]
  refine ⟨_, hsound, hleft, fun tokens => ?_⟩
  have hgather := gather_token hnotQuote hnext tokens
  rwa [hjoined] at hgather

/-- **The words of an expression are joined**, and no more than that. -/
theorem gather_balanced {front : List Char} {tokens : Nat} (hs : s.Sound)
    (hleft : s.left = lead ++ (text ++ rest)) (hlead : ∀ c ∈ lead, isBlank c = true)
    (hrest : Parted rest) (hquote : '"' ∉ text) (htext : Balances (openParens front) text)
    (hink : ∃ c ∈ text, isBlank c = false)
    (htokens : Ceiling.expressionLength < front.length + tokens) :
    Joins (front ++ inkOf text) rest (s.gather tokens (String.ofList front)) := by
  induction tokens generalizing s lead text front with
  | zero =>
    refine .tooLong ?_ rfl
    rw [List.length_append]
    omega
  | succ tokens ih =>
    rcases blank_or_leads text with hall | ⟨word, more, hleads⟩
    · obtain ⟨c, hc, hblank⟩ := hink
      rw [hall c hc] at hblank
      cases hblank
    obtain ⟨gap, hgap, rfl⟩ := hleads.gap
    have hword : Leads s.left word (more ++ rest) := by
      rw [hleft]
      refine Leads.after_blank ⟨hleads.isWord, ?_, gap, hgap, by simp⟩ hlead
      exact Parted.append hleads.parted hrest
    obtain ⟨s', hsound, hleft', hgather⟩ :=
      hs.gather_word hword (fun hmem => hquote (by simp [hmem])) front
    have hbalances : Balances (openParens (front ++ word)) more := by
      rw [openParens_append]
      exact htext.behind hgap
    rw [hgather, inkOf_word hgap hleads.isWord, ← List.append_assoc]
    by_cases hlong : Ceiling.expressionLength < (front ++ word).length
    · rw [verdict?_tooLong (by rwa [String.length_ofList])]
      refine .tooLong ?_ rfl
      rw [List.length_append]
      omega
    have hfits : (String.ofList (front ++ word)).length ≤ Ceiling.expressionLength := by
      rw [String.length_ofList]
      omega
    by_cases hmore : more = []
    · subst hmore
      have hzero : openParens (front ++ word) = 0 := by
        have htotal := hbalances.1
        rwa [show openParens [] = 0 from rfl, Int.add_zero] at htotal
      rw [verdict?_closed hfits (by rwa [String.toList_ofList])]
      refine .read ?_ ?_ hsound hleft'
      · rwa [show inkOf [] = [] from rfl, List.append_nil, ← String.length_ofList]
      · rw [show inkOf [] = [] from rfl, List.append_nil]
    · have hopen := hbalances.open_pos hmore hleads.parted
      have hpos : 1 ≤ word.length := List.length_pos_iff.mpr hleads.isWord.1
      rw [verdict?_eq_none.mpr ⟨hfits, by rwa [String.toList_ofList]⟩]
      have hnil : ∀ c ∈ ([] : List Char), isBlank c = true := List.forall_mem_nil _
      refine ih hsound hleft' hnil (fun hmem => hquote (by simp [hmem])) hbalances
        (hbalances.exists_ink hopen) ?_
      rw [List.length_append]
      omega

/-- **An expression is read to its end**, and its value does not depend on what follows. -/
theorem Sound.nextExpression (hs : s.Sound) (hleft : s.left = lead ++ (text ++ rest))
    (hlead : ∀ c ∈ lead, isBlank c = true) (hrest : Parted rest) (h : IsExpression text) :
    (∃ value s', valueOf text = some value ∧ s.nextExpression = (.ok value, s') ∧ s'.Sound ∧
      s'.left = rest) ∨
    (valueOf text = none ∧ ∃ failure s', s.nextExpression = (.error failure, s')) := by
  have hink : ∃ c ∈ text, isBlank c = false := ⟨'(', List.mem_of_mem_head? h.head, by decide⟩
  have hjoins : Joins ([] ++ inkOf text) rest (s.gather (Ceiling.expressionLength + 1) "") :=
    gather_balanced hs hleft hlead hrest h.noQuote h.balances hink (by simp)
  have hread : s.nextExpression = ((s.gather (Ceiling.expressionLength + 1) "").1.bind
      Arithmetic.evaluate, (s.gather (Ceiling.expressionLength + 1) "").2) := rfl
  rw [hread]
  cases hjoins with
  | read hfits hvalue hsound hleft' =>
    rw [List.nil_append] at hfits hvalue
    have hgathered : (s.gather (Ceiling.expressionLength + 1) "").1 =
        .ok (String.ofList (inkOf text)) := hvalue
    rw [valueOf, if_pos hfits, hgathered]
    cases hevaluate : Arithmetic.evaluate (String.ofList (inkOf text)) with
    | ok value => exact .inl ⟨value, _, rfl, Prod.ext hevaluate rfl, hsound, hleft'⟩
    | error failure => exact .inr ⟨rfl, failure, _, Prod.ext hevaluate rfl⟩
  | @tooLong hlong failure hvalue =>
    rw [List.nil_append] at hlong
    have hgathered : (s.gather (Ceiling.expressionLength + 1) "").1 = .error failure := hvalue
    rw [valueOf, if_neg (by omega), hgathered]
    exact .inr ⟨rfl, failure, _, rfl⟩

end Stream
end DeviceSchema.Token
