import DeviceSchema.Proofs.Lockstep.Steps
import DeviceSchema.Proofs.Token.Expressions

/-! # What reading comes to on a text

What a step gives is told here by the text that it reads and the session: its outcome is a value
and a session, with some of the text left behind it, or there is none and the step fails
(`Comes`).  Behind what a step reads, any text may follow that does not go on with it.

Names, texts, descriptions and expressions each come with a lemma that says what text they read.
What they make of it matters only as far as it does not depend on what follows.
-/
namespace DeviceSchema.Statement
open Text Token

/-- The reader has `text` left, with this session. -/
structure Progress.At (p : Progress) (text : List Char) (s : Session) : Prop where
  sound : p.stream.Sound
  left : p.stream.left = text
  session : p.session = s

namespace Reading
variable {α β : Type}

/-- Where `text` is left, the step has the outcome and leaves `rest`.  If it has none, whatever
the step gives satisfies `E`. -/
def ComesOr (E : α → Prop) (m : Reading α) (text : List Char) (s : Session)
    (outcome : Option (α × Session)) (rest : List Char) : Prop :=
  ∀ ⦃p : Progress⦄, p.At text s → match outcome with
    | some (a, s') => ∃ q, m p = .ok a q ∧ q.At rest s'
    | none => ∀ a q, m p = .ok a q → E a

/-- Where `text` is left, the step has the outcome and leaves `rest`, or it fails. -/
abbrev Comes (m : Reading α) (text : List Char) (s : Session) (outcome : Option (α × Session))
    (rest : List Char) : Prop := ComesOr (fun _ => False) m text s outcome rest

section Composing
variable {E : β → Prop} {D : α → Prop} {m : Reading α} {f : α → Reading β}
variable {text mid rest : List Char} {s s' : Session} {a : α}
variable {outcome : Option (α × Session)} {final : Option (β × Session)}

theorem Comes.weaken {m : Reading β} (h : Comes m text s final rest) :
    ComesOr E m text s final rest := by
  intro p hp
  cases final with
  | none => exact fun b q hrun => absurd hrun (h hp b q)
  | some found => exact h hp

/-- What follows a step, if it has an outcome. -/
theorem Comes.bind (hm : Comes m text s outcome mid)
    (hsome : ∀ a s', outcome = some (a, s') → ComesOr E (f a) mid s' final rest)
    (hnone : outcome = none → final = none) : ComesOr E (m >>= f) text s final rest := by
  intro p hp
  have hmp := hm hp
  cases outcome with
  | none =>
    rw [hnone rfl]
    intro b r hrun
    obtain ⟨a, q, ha, -⟩ := bind_ok.mp hrun
    exact absurd ha (hmp a q)
  | some found =>
    obtain ⟨a, s'⟩ := found
    obtain ⟨q, hq, hat⟩ := hmp
    rw [bind_at hq]
    exact hsome a s' rfl hat

/-- What follows a step that has an outcome. -/
theorem Comes.next (hm : Comes m text s (some (a, s')) mid)
    (hf : ComesOr E (f a) mid s' final rest) : ComesOr E (m >>= f) text s final rest :=
  hm.bind (fun _ _ h => by cases h; exact hf) nofun

/-- A step that fails fails with all that follows. -/
theorem Comes.stop (hm : Comes m text s none mid) : ComesOr E (m >>= f) text s none rest :=
  hm.bind nofun fun _ => rfl

theorem comes_pure : Comes (pure a) text s (some (a, s)) text := fun _ hp => ⟨_, rfl, hp⟩

theorem Refuses.comes {m : Reading β} (h : Refuses m) : ComesOr E m text s none rest :=
  fun _ _ b q hrun => absurd hrun (h _ b q)

theorem comes_taking {result : Except Defect α} :
    Comes (taking result) text s (result.toOption.map fun a => (a, s)) text := by
  cases result with
  | ok value => exact comes_pure
  | error defect => exact refuses_taking.comes

theorem comes_note {change : Statistics → Statistics} :
    Comes (note change) text s (some ((), s.note change)) text :=
  fun _ hp => ⟨_, rfl, hp.sound, hp.left, congrArg (Session.note · change) hp.session⟩

theorem ComesOr.line {f : Nat → Reading β} (h : ∀ n, ComesOr E (f n) text s final rest) :
    ComesOr E (line >>= f) text s final rest := fun p hp => h p.stream.line hp

theorem comes_limits : Comes limits text s (some (s.limits, s)) text := by
  intro p hp
  refine ⟨p, ?_, hp⟩
  rw [← hp.session]
  rfl

theorem comes_session : Comes session text s (some (s, s)) text := by
  intro p hp
  refine ⟨p, ?_, hp⟩
  rw [← hp.session]
  rfl

end Composing

/-! ## Tokens -/

section Tokens
variable {E : α → Prop} {text word body gap rest rest' : List Char} {s : Session} {c : Char}
variable {outcome : Option (α × Session)}

/-- The next token is the word that the text leads with. -/
theorem token?_at {p : Progress} (hp : p.At text s) (h : Leads text word rest) :
    ∃ (c : Cursor) (line : Nat),
      token? p = .ok (some (Token.ofCursor c)) { p with stream := Stream.behind c line } ∧
        c.Stands word rest := by
  rcases hp.sound.next with ⟨hall, -⟩ | ⟨word', rest', c, line, hleads, hc, hs⟩
  · obtain ⟨d, tail, rfl, hd⟩ := h.isWord.exists_cons
    obtain ⟨gap, -, htext⟩ := h.gap
    have hblank := hall d (by rw [hp.left, htext]; simp)
    rw [hd] at hblank
    cases hblank
  · rw [hp.left] at hleads
    obtain ⟨rfl, rfl⟩ := h.unique hleads
    refine ⟨c, line, ?_, hc⟩
    rw [token?, onStream, hs]

/-- Behind the token, the rest of the text is left. -/
theorem at_behind {p : Progress} (hp : p.At text s) {cursor : Cursor}
    (hc : cursor.Stands word rest) (line : Nat) :
    Progress.At { p with stream := Stream.behind cursor line } rest s :=
  ⟨(Stream.behind_left hc line).1, (Stream.behind_left hc line).2, hp.session⟩

theorem ComesOr.token {f : Option Token → Reading α} (h : Leads text word rest)
    (hf : ∀ token : Token, token.text = String.ofList word →
      ComesOr E (f (some token)) rest s outcome rest') :
    ComesOr E (token? >>= f) text s outcome rest' := by
  intro p hp
  obtain ⟨cursor, line, hread, hc⟩ := token?_at hp h
  rw [bind_at hread]
  exact hf _ hc.text (at_behind hp hc line)

theorem wordAhead_head (text : List Char) (c : Char) :
    (match wordAhead text with
      | some word => decide (word.toList.head? = some c)
      | none => false) = decide ((skipBlanks text).head? = some c) := by
  rcases blank_or_leads text with hall | ⟨word, rest, hleads⟩
  · have hskip : skipBlanks text = [] := List.dropWhile_eq_nil_iff.mpr hall
    rw [wordAhead_blank hall, hskip]
    rfl
  · obtain ⟨d, tail, rfl, -⟩ := hleads.isWord.exists_cons
    rw [hleads.wordAhead, hleads.skipBlanks]
    simp

/-- Looking ahead shows the first character that is not blank. -/
theorem comes_seesStart :
    Comes (seesStart c) text s (some (decide ((skipBlanks text).head? = some c), s)) text := by
  intro p hp
  refine ⟨p, ?_, hp⟩
  rw [← wordAhead_head, ← hp.left, ← hp.sound.peek]
  rfl

theorem comes_seesStart_true (h : (skipBlanks text).head? = some c) :
    Comes (seesStart c) text s (some (true, s)) text := by
  have hsees : Comes (seesStart c) text s _ text := comes_seesStart
  rwa [decide_eq_true h] at hsees

theorem comes_seesStart_false (h : (skipBlanks text).head? ≠ some c) :
    Comes (seesStart c) text s (some (false, s)) text := by
  have hsees : Comes (seesStart c) text s _ text := comes_seesStart
  rwa [decide_eq_false h] at hsees

/-- A text in quotes is read up to the second quote. -/
theorem comes_nextQuoted (hbody : ∀ c ∈ body, c ≠ '"' ∧ c ≠ '\n')
    (htext : skipBlanks text = '"' :: (body ++ '"' :: rest)) :
    Comes (onStream Token.Stream.nextQuoted) text s (some (some (String.ofList body), s)) rest := by
  intro p hp
  have hquotes : Quotes (skipBlanks p.stream.left) body rest := ⟨[], nofun, hbody, by
    rw [hp.left, htext]; rfl⟩
  obtain ⟨s', hsound, hnext⟩ := hp.sound.nextQuoted
  rcases hnext with ⟨body', hread, hquotes'⟩ | ⟨-, -, hnone⟩
  · obtain ⟨rfl, hrest⟩ := hquotes.unique hquotes'
    refine ⟨{ p with stream := s' }, ?_, hsound, hrest.symm, hp.session⟩
    rw [onStream, hread]
  · exact absurd hquotes (hnone _ _)

end Tokens

/-! ## Words and texts -/

section Texts
variable {text word body rest : List Char} {s : Session}

theorem Leads.head_skipBlanks {c : Char} (h : Leads text word rest) :
    (skipBlanks text).head? = some c ↔ word.head? = some c := by
  obtain ⟨d, tail, rfl, -⟩ := h.isWord.exists_cons
  rw [h.skipBlanks]
  simp

/-- Whether a word is a name of at most the length that is allowed. -/
def isNameWithin (limits : Limits) (ofMember : Bool) (word : List Char) : Bool :=
  decide (word.length ≤ limits.nameLength) && isName ofMember word

/-- A name is the next word. -/
theorem comes_anyName {ofMember : Bool} {tooLong : Nat → Cause} {malformed : String → Cause}
    (h : Leads text word rest) :
    Comes (anyName ofMember tooLong malformed) text s
      (if isNameWithin s.limits ofMember word then some (String.ofList word, s) else none) rest := by
  refine ComesOr.line fun before => ComesOr.token h fun token htext => comes_limits.next ?_
  rw [htext, String.length_ofList, String.toList_ofList, isNameWithin]
  by_cases hlong : s.limits.nameLength < word.length
  · rw [if_pos hlong, decide_eq_false (by omega)]
    exact refuses_fail.comes
  · rw [if_neg hlong, decide_eq_true (by omega)]
    cases hname : isName ofMember word with
    | false => exact refuses_fail.comes
    | true => exact comes_pure

theorem comes_name (h : Leads text word rest) : Comes name text s
    (if isNameWithin s.limits false word then some (String.ofList word, s) else none) rest :=
  comes_anyName h

theorem comes_memberName (h : Leads text word rest) : Comes memberName text s
    (if isNameWithin s.limits true word then some (String.ofList word, s) else none) rest :=
  comes_anyName h

/-- A text is the next word. -/
theorem comes_text {missing : Cause} (h : Leads text word rest) (hquote : word.head? ≠ some '"') :
    Comes (Reading.text missing) text s (some (String.ofList word, s)) rest := by
  have htext? : Comes text? text s (some (some (String.ofList word), s)) rest := by
    have hsees := mt (Leads.head_skipBlanks h).mp hquote
    refine (comes_seesStart_false hsees).next (ComesOr.token h fun token htext => ?_)
    rw [← htext]
    exact comes_pure
  exact htext?.next comes_pure

/-- A text is what stands in quotes. -/
theorem comes_text_quoted {missing : Cause} (hbody : ∀ c ∈ body, c ≠ '"' ∧ c ≠ '\n')
    (htext : skipBlanks text = '"' :: (body ++ '"' :: rest)) :
    Comes (Reading.text missing) text s (some (String.ofList body, s)) rest := by
  have htext? : Comes text? text s (some (some (String.ofList body), s)) rest :=
    (comes_seesStart_true (by rw [htext]; rfl)).next (comes_nextQuoted hbody htext)
  exact htext?.next comes_pure

end Texts

/-! ## Descriptions -/

section Descriptions

/-- No text in quotes comes next. -/
def NoQuoteNext (text : List Char) : Prop := (skipBlanks text).head? ≠ some '"'

/-- Texts in quotes, each with what stands before it. -/
def quotations (texts : List (List Char × List Char)) : List Char :=
  texts.flatMap fun (gap, body) => gap ++ '"' :: (body ++ ['"'])

/-- What can be read as a text in quotes: blanks, and a text without quotes on one line. -/
def IsQuotation (quotation : List Char × List Char) : Prop :=
  (∀ c ∈ quotation.1, isBlank c = true) ∧ ∀ c ∈ quotation.2, c ≠ '"' ∧ c ≠ '\n'

variable {s : Session} {text rest : List Char} {quotation : List Char × List Char}

theorem IsQuotation.skipBlanks (h : IsQuotation quotation) (rest : List Char) :
    Text.skipBlanks (quotations [quotation] ++ rest) =
      '"' :: (quotation.2 ++ '"' :: rest) := by
  have htext : quotations [quotation] ++ rest =
      quotation.1 ++ '"' :: (quotation.2 ++ '"' :: rest) := by simp [quotations]
  rw [htext, skipBlanks_append h.1]
  exact List.dropWhile_cons_of_neg (by decide)

theorem comes_description?_none {wording : Wording} (h : NoQuoteNext text) :
    Comes (description? wording) text s (some (none, s)) text :=
  (comes_seesStart_false h).next comes_pure

/-- What a description gives depends on what stands in quotes. -/
theorem exists_description? (wording : Wording) (h : IsQuotation quotation) :
    ∃ found : Option (Option String), ∀ s rest,
      Comes (description? wording) (quotations [quotation] ++ rest) s
        (found.map fun text => (text, s)) rest := by
  have hread (s : Session) (rest : List Char) :
      Comes (onStream Token.Stream.nextQuoted) (quotations [quotation] ++ rest) s
        (some (some (String.ofList quotation.2), s)) rest := comes_nextQuoted h.2 (h.skipBlanks rest)
  have hsees (s : Session) (rest : List Char) : Comes (seesStart '"')
      (quotations [quotation] ++ rest) s (some (true, s)) (quotations [quotation] ++ rest) :=
    comes_seesStart_true (by rw [h.skipBlanks]; rfl)
  by_cases hlatin : isLatin1 (String.ofList quotation.2).toList = true
  · refine ⟨some (if (String.ofList quotation.2).isEmpty then none
      else some (String.ofList quotation.2)), fun s rest => ?_⟩
    refine (hsees s rest).next ((hread s rest).next ?_)
    dsimp only
    rw [hlatin]
    exact comes_pure
  · refine ⟨none, fun s rest => (hsees s rest).next ((hread s rest).next ?_)⟩
    dsimp only
    rw [Bool.eq_false_iff.mpr hlatin]
    exact refuses_fail.comes

theorem comes_label?_none (h : NoQuoteNext text) : Comes label? text s (some (none, s)) text :=
  (comes_description?_none h).next comes_pure

theorem exists_label? (h : IsQuotation quotation) :
    ∃ found : Option (Option String), ∀ s rest,
      Comes label? (quotations [quotation] ++ rest) s (found.map fun text => (text, s)) rest := by
  obtain ⟨found, hfound⟩ := exists_description? .label h
  cases found with
  | none => exact ⟨none, fun s rest => (hfound s rest).stop⟩
  | some text =>
    cases text with
    | none => exact ⟨some none, fun s rest => (hfound s rest).next comes_pure⟩
    | some text =>
      by_cases hlong : Ceiling.labelLength < text.length
      · refine ⟨none, fun s rest => (hfound s rest).next ?_⟩
        dsimp only
        rw [if_pos hlong]
        exact refuses_fail.comes
      · refine ⟨some (some (doubleColons text)), fun s rest => (hfound s rest).next ?_⟩
        dsimp only
        rw [if_neg hlong]
        exact comes_pure

/-- **A label and a help text depend on at most two texts in quotes.** -/
theorem exists_descriptions {texts : List (List Char × List Char)} (hcount : texts.length ≤ 2)
    (h : ∀ quotation ∈ texts, IsQuotation quotation) :
    ∃ found : Option (Option String × Option String), ∀ ⦃s : Session⦄ ⦃rest : List Char⦄,
      NoQuoteNext rest → Comes (do return (← label?, ← help?)) (quotations texts ++ rest) s
        (found.map fun texts => (texts, s)) rest := by
  match texts, hcount, h with
  | [], _, _ =>
    exact ⟨some (none, none), fun s rest hrest => (comes_label?_none hrest).next
      ((comes_description?_none hrest).next comes_pure)⟩
  | [first], _, h =>
    obtain ⟨label, hlabel⟩ := exists_label? (h first (by simp))
    cases label with
    | none => exact ⟨none, fun s rest _ => (hlabel s rest).stop⟩
    | some label =>
      exact ⟨some (label, none), fun s rest hrest => (hlabel s rest).next
        ((comes_description?_none hrest).next comes_pure)⟩
  | [first, second], _, h =>
    obtain ⟨label, hlabel⟩ := exists_label? (h first (by simp))
    obtain ⟨help, hhelp⟩ := exists_description? .help (h second (by simp))
    have hsplit (rest : List Char) : quotations [first, second] ++ rest =
        quotations [first] ++ (quotations [second] ++ rest) := by simp [quotations]
    simp only [hsplit]
    cases label with
    | none => exact ⟨none, fun s rest _ => (hlabel s _).stop⟩
    | some label =>
      cases help with
      | none => exact ⟨none, fun s rest _ => (hlabel s _).next (hhelp s rest).stop⟩
      | some help =>
        exact ⟨some (label, help), fun s rest _ => (hlabel s _).next
          ((hhelp s rest).next comes_pure)⟩

/-- A label and a help text are read one after the other, and then taken together. -/
theorem descriptions_bind {β : Type} (f : Option String → Option String → Reading β) :
    (label? >>= fun label => help? >>= fun help => f label help) =
      (do return (← label?, ← help?)) >>= fun texts => f texts.1 texts.2 := by
  simp only [bind_assoc, pure_bind]

end Descriptions

/-! ## Expressions -/

section Expressions
variable {text gap rest : List Char}

theorem comes_expression (h : IsExpression text) (hgap : ∀ c ∈ gap, isBlank c = true)
    (hrest : Parted rest) {s : Session} : Comes expression (gap ++ (text ++ rest)) s
      ((valueOf text).map fun value => (value, s)) rest := by
  intro p hp
  rcases hp.sound.nextExpression hp.left hgap hrest h with
    ⟨value, s', hvalue, hread, hsound, hleft⟩ | ⟨hvalue, failure, s', hread⟩
  · rw [hvalue]
    refine ⟨{ p with stream := s' }, bind_ok.mpr ⟨.ok value, { p with stream := s' }, ?_, rfl⟩,
      hsound, hleft, hp.session⟩
    rw [onStream, hread]
  · rw [hvalue]
    intro value q hrun
    obtain ⟨result, r, hresult, hrun⟩ := bind_ok.mp hrun
    rw [onStream, hread] at hresult
    cases hresult
    cases hrun

end Expressions
end Reading
end DeviceSchema.Statement
