import DeviceSchema.Proofs.Reading.Values
import DeviceSchema.Proofs.Reading.Yields

/-! # Reading two layouts in step

Two readers are **alongside** each other when their streams hold the same pieces and
their sessions are the same (`Alongside`); lines and columns may differ.  Two steps are
**in step** when, started alongside each other, the success of the first means that the
second succeeds too, that both values are alike, and that the readers are alongside each
other again (`InStep`).  Steps in step compose (`InStepOr.bind`), so it is enough to look
at the steps that touch the stream.

A token is only the first word of a piece.  Where a text in quotes begins, whoever reads a
token has to hand it back or to fail, or the value is exceptional in some way that shows
later on (`InStepOr`).
-/
namespace DeviceSchema.Statement
open Token (Piece)
open Token.Stream

/-- Two readers that have come to the same place of the same pieces. -/
structure Alongside (ps : List Piece) (p₁ p₂ : Progress) : Prop where
  left : p₁.stream.Holds ps
  right : p₂.stream.Holds ps
  session : p₂.session = p₁.session

namespace Reading
variable {α β : Type}

/-- Where the first of two readers alongside each other succeeds, the second does so too,
unless the value of the first is exceptional. -/
def InStepOr (E : α → Prop) (R : α → α → Prop) (m₁ m₂ : Reading α) : Prop :=
  ∀ ps p₁ p₂ a q₁, Alongside ps p₁ p₂ → m₁ p₁ = .ok a q₁ →
    E a ∨ ∃ b q₂ ps', m₂ p₂ = .ok b q₂ ∧ R a b ∧ Alongside ps' q₁ q₂

/-- Where the first of two readers alongside each other succeeds, the second does so too. -/
abbrev InStep (R : α → α → Prop) (m₁ m₂ : Reading α) : Prop := InStepOr (fun _ => False) R m₁ m₂

/-- The step never succeeds. -/
def Refuses (m : Reading α) : Prop := ∀ p a q, m p ≠ .ok a q

section Composing
variable {E : β → Prop} {D : α → Prop} {R : α → α → Prop} {S : β → β → Prop}
  {m₁ m₂ : Reading α} {f g : α → Reading β}

theorem InStepOr.bind_or (hm : InStepOr D R m₁ m₂) (hf : ∀ a b, R a b → InStepOr E S (f a) (g b))
    (hD : ∀ a, D a → ∀ p b q, f a p = .ok b q → E b) : InStepOr E S (m₁ >>= f) (m₂ >>= g) := by
  intro ps p₁ p₂ b r₁ h hrun
  obtain ⟨a, q₁, hm₁, hf₁⟩ := bind_ok.mp hrun
  rcases hm ps p₁ p₂ a q₁ h hm₁ with ha | ⟨a', q₂, ps', hm₂, hR, h'⟩
  · exact .inl (hD a ha q₁ b r₁ hf₁)
  · rcases hf a a' hR ps' q₁ q₂ b r₁ h' hf₁ with hb | ⟨b', r₂, ps'', hf₂, hS, h''⟩
    · exact .inl hb
    · exact .inr ⟨b', r₂, ps'', bind_ok.mpr ⟨a', q₂, hm₂, hf₂⟩, hS, h''⟩

theorem InStepOr.bind (hm : InStep R m₁ m₂) (hf : ∀ a b, R a b → InStepOr E S (f a) (g b)) :
    InStepOr E S (m₁ >>= f) (m₂ >>= g) :=
  hm.bind_or hf fun _ ha => ha.elim

/-- Steps that give the same value, and go on from it. -/
theorem InStepOr.next (hm : InStep Eq m₁ m₂) (hf : ∀ a, InStepOr E S (f a) (g a)) :
    InStepOr E S (m₁ >>= f) (m₂ >>= g) := by
  refine InStepOr.bind hm fun a b hab => ?_
  subst hab
  exact hf a

theorem Refuses.inStep {n₁ n₂ : Reading β} (h : Refuses n₁) : InStepOr E S n₁ n₂ :=
  fun _ p₁ _ a q₁ _ hrun => absurd hrun (h p₁ a q₁)

theorem inStep_pure {a b : β} (h : S a b) : InStepOr E S (pure a) (pure b) := by
  intro ps p₁ p₂ c q₁ hp hrun
  obtain ⟨rfl, rfl⟩ := pure_ok.mp hrun
  exact .inr ⟨b, p₂, ps, rfl, h, hp⟩

end Composing

section Refusing

theorem refuses_fail {cause : Cause} : Refuses (fail cause : Reading α) := by
  intro p a q h
  cases h

theorem refuses_failAt {line : Nat} {cause : Cause} : Refuses (failAt line cause : Reading α) := by
  intro p a q h
  cases h

theorem refuses_failWithin {construct : Construct} {line : Nat} {cause : Cause} :
    Refuses (failWithin construct line cause : Reading α) := by
  intro p a q h
  cases h

theorem refuses_failIn {construct : Construct} {name : String} {line : Nat} {cause : Cause} :
    Refuses (failIn construct name line cause : Reading α) := by
  intro p a q h
  cases h

theorem Refuses.bind {m : Reading α} {f : α → Reading β} (h : Refuses m) : Refuses (m >>= f) := by
  intro p b r hrun
  obtain ⟨a, q, hm, -⟩ := bind_ok.mp hrun
  exact h p a q hm

theorem refuses_taking {defect : Defect} : Refuses (taking (.error defect) : Reading α) :=
  refuses_fail

end Refusing

section Steps
variable {E : α → Prop} {R : α → α → Prop}

/-- The lines that two readers have reached may differ. -/
theorem inStep_line {f g : Nat → Reading α} (h : ∀ n n', InStepOr E R (f n) (g n')) :
    InStepOr E R (line >>= f) (line >>= g) := by
  have hline : InStep (fun _ _ => True) line line := by
    intro ps p₁ p₂ n q₁ hp hrun
    cases hrun
    exact .inr ⟨_, p₂, ps, rfl, trivial, hp⟩
  exact InStepOr.bind hline fun n n' _ => h n n'

theorem inStep_limits : InStep Eq limits limits := by
  intro ps p₁ p₂ l q₁ hp hrun
  obtain ⟨rfl, rfl⟩ := limits_ok hrun
  exact .inr ⟨_, p₂, ps, rfl, by rw [hp.session], hp⟩

theorem inStep_session : InStep Eq session session := by
  intro ps p₁ p₂ s q₁ hp hrun
  obtain ⟨rfl, rfl⟩ := session_ok hrun
  exact .inr ⟨_, p₂, ps, rfl, hp.session.symm, hp⟩

theorem inStep_tell {event event' : Event} : InStep Eq (tell event) (tell event') := by
  intro ps p₁ p₂ u q₁ hp hrun
  cases hrun
  exact .inr ⟨(), _, ps, rfl, rfl, hp.left, hp.right, hp.session⟩

theorem inStep_onSession {change : Session → Session} :
    InStep Eq (onSession change) (onSession change) := by
  intro ps p₁ p₂ u q₁ hp hrun
  cases hrun
  exact .inr ⟨(), _, ps, rfl, rfl, hp.left, hp.right, congrArg change hp.session⟩

theorem inStep_note {change : Statistics → Statistics} : InStep Eq (note change) (note change) :=
  inStep_onSession

theorem inStep_extending {change : Changing Session Unit} :
    InStep Eq (extending change) (extending change) := by
  intro ps p₁ p₂ u q₁ hp hrun
  obtain ⟨s, hs, rfl⟩ := extending_ok.mp hrun
  exact .inr ⟨(), _, ps, extending_ok.mpr ⟨s, by rw [hp.session, hs], rfl⟩, rfl,
    hp.left, hp.right, rfl⟩

theorem inStep_taking {result : Except Defect α} : InStep Eq (taking result) (taking result) := by
  cases result with
  | ok value => exact inStep_pure rfl
  | error defect => exact refuses_taking.inStep

theorem inStep_closing {construct : Construct} {name : String} {line line' : Nat}
    {result : Except Defect α} :
    InStep Eq (closing construct name line result) (closing construct name line' result) := by
  cases result with
  | ok value => exact inStep_pure rfl
  | error defect => exact refuses_failIn.inStep

/-- How two readers go on once each has read the first word of the same piece. -/
inductive GoesOn (E : α → Prop) (R : α → α → Prop) (token token' : Token)
    (m₁ m₂ : Reading α) : Prop
  /-- Behind a plain word both are alongside each other; inside a text in quotes the
  first does not succeed, or its value is exceptional. -/
  | ahead (h : InStepOr E R m₁ m₂)
      (hquote : token.text.toList.head? = some '"' → ∀ p a q, m₁ p = .ok a q → E a)
  | back {a b : α} (h : R a b) (h₁ : m₁ = handBack token >>= fun _ => pure a)
      (h₂ : m₂ = handBack token' >>= fun _ => pure b)

theorem token?_alongside_nil {p₁ p₂ : Progress} (h : Alongside [] p₁ p₂) :
    ∃ q₁ q₂, token? p₁ = .ok none q₁ ∧ token? p₂ = .ok none q₂ ∧ Alongside [] q₁ q₂ := by
  obtain ⟨s₁, hnext₁, hs₁⟩ := h.left.next_nil
  obtain ⟨s₂, hnext₂, hs₂⟩ := h.right.next_nil
  refine ⟨{ p₁ with stream := s₁ }, { p₂ with stream := s₂ }, ?_, ?_, hs₁, hs₂, h.session⟩
  · rw [token?, onStream, hnext₁]
  · rw [token?, onStream, hnext₂]

/-- Both readers read the first word of the piece that is ahead, and both can hand it back.
Behind a plain word they are alongside each other. -/
theorem token?_alongside_cons {piece : Piece} {rest : List Piece} {p₁ p₂ : Progress}
    (h : Alongside (piece :: rest) p₁ p₂) :
    ∃ token token' q₁ q₂, token? p₁ = .ok (some token) q₁ ∧ token? p₂ = .ok (some token') q₂ ∧
      token.text = piece.first ∧ token'.text = piece.first ∧
      (∀ word, piece = .plain word → Alongside rest q₁ q₂) ∧
      ∃ r₁ r₂, handBack token q₁ = .ok () r₁ ∧ handBack token' q₂ = .ok () r₂ ∧
        Alongside (piece :: rest) r₁ r₂ := by
  obtain ⟨c₁, line₁, hnext₁, hat₁⟩ := h.left.next_cons
  obtain ⟨c₂, line₂, hnext₂, hat₂⟩ := h.right.next_cons
  obtain ⟨s₁, hback₁, hs₁⟩ := handBack_behind line₁ hat₁
  obtain ⟨s₂, hback₂, hs₂⟩ := handBack_behind line₂ hat₂
  refine ⟨Token.ofCursor c₁, Token.ofCursor c₂, { p₁ with stream := behind c₁ line₁ },
    { p₂ with stream := behind c₂ line₂ }, ?_, ?_, hat₁.text, hat₂.text, ?_,
    { p₁ with stream := s₁ }, { p₂ with stream := s₂ }, ?_, ?_, hs₁, hs₂, h.session⟩
  · rw [token?, onStream, hnext₁]
  · rw [token?, onStream, hnext₂]
  · rintro word rfl
    exact ⟨holds_behind hat₁, holds_behind hat₂, h.session⟩
  · rw [handBack, hback₁]
  · rw [handBack, hback₂]

/-- Two readers that read a token read words of the same text.  It begins no comment. -/
theorem inStep_token? {f g : Option Token → Reading α} (hnone : InStepOr E R (f none) (g none))
    (hsome : ∀ token token' : Token, token'.text = token.text →
      token.text.toList.head? ≠ some '#' →
      GoesOn E R token token' (f (some token)) (g (some token'))) :
    InStepOr E R (token? >>= f) (token? >>= g) := by
  intro ps p₁ p₂ a r₁ hp hrun
  obtain ⟨read, q₁, hread, hrun⟩ := bind_ok.mp hrun
  cases ps with
  | nil =>
    obtain ⟨q, q₂, htoken, htoken', hq⟩ := token?_alongside_nil hp
    rw [htoken] at hread
    cases hread
    rcases hnone _ _ _ a r₁ hq hrun with ha | ⟨b, r₂, ps', hg, hR, hr⟩
    · exact .inl ha
    · exact .inr ⟨b, r₂, ps', bind_ok.mpr ⟨none, q₂, htoken', hg⟩, hR, hr⟩
  | cons piece rest =>
    obtain ⟨token, token', q, q₂, htoken, htoken', htext, htext', hahead, s₁, s₂, hback, hback',
      hs⟩ := token?_alongside_cons hp
    rw [htoken] at hread
    cases hread
    have hwell := hp.left.wellFormed piece List.mem_cons_self
    have hhead : token.text.toList.head? = piece.spelling.head? := by
      rw [htext, Piece.head?_first hwell]
    have hhash : token.text.toList.head? ≠ some '#' := by
      obtain ⟨c, more, hspelling, -, hc⟩ := Piece.exists_spelling hwell
      rw [hhead, hspelling, List.head?_cons]
      exact fun he => hc (Option.some.inj he)
    cases hsome token token' (htext'.trans htext.symm) hhash with
    | ahead h hquote =>
      cases piece with
      | quoted body =>
        -- Behind the first word the readers are inside the text and no longer alongside.
        exact .inl (hquote hhead _ a r₁ hrun)
      | plain word =>
        rcases h _ _ _ a r₁ (hahead word rfl) hrun with ha | ⟨b, r₂, ps', hg, hR, hr⟩
        · exact .inl ha
        · exact .inr ⟨b, r₂, ps', bind_ok.mpr ⟨_, q₂, htoken', hg⟩, hR, hr⟩
    | @back x y h h₁ h₂ =>
      rw [h₁] at hrun
      obtain ⟨u, r, hr, hrun⟩ := bind_ok.mp hrun
      rw [hback] at hr
      cases hr
      obtain ⟨rfl, rfl⟩ := pure_ok.mp hrun
      refine .inr ⟨y, s₂, piece :: rest, bind_ok.mpr ⟨_, q₂, htoken', ?_⟩, h, hs⟩
      rw [h₂]
      exact bind_ok.mpr ⟨(), s₂, hback', rfl⟩

end Steps

/-! ## Steps that depend on the pieces only -/

section Determined
variable {E : α → Prop} {m : Reading α} {ps ps' : List Piece}

/-- Whatever reads these pieces fails, or whatever reads them gets the same. -/
def Determined (m : Reading α) (ps : List Piece) : Prop :=
  (∀ p a q, p.stream.Holds ps → m p ≠ .ok a q) ∨ ∃ a ps', ∀ l, Yields l m ps a ps'

theorem Refuses.determined (h : Refuses m) : Determined m ps := .inl fun p a q _ => h p a q

theorem determined_pure {a : α} : Determined (pure a) ps := .inr ⟨a, ps, fun _ => yields_pure⟩

theorem Determined.after {f : α → Reading β} {a : α} (hm : ∀ l, Yields l m ps a ps')
    (hf : Determined (f a) ps') : Determined (m >>= f) ps := by
  rcases hf with hf | ⟨b, ps'', hf⟩
  · refine .inl fun p b r hs hrun => ?_
    obtain ⟨q, hq, hs', -⟩ := hm _ p rfl hs
    obtain ⟨a', q', hq', hrun⟩ := bind_ok.mp hrun
    rw [hq] at hq'
    cases hq'
    exact hf q b r hs' hrun
  · exact .inr ⟨b, ps'', fun l => (hm l).bind (hf l)⟩

theorem Determined.bind {f : α → Reading β} (hm : Determined m ps) (hf : ∀ a ps', Determined (f a) ps') :
    Determined (m >>= f) ps := by
  rcases hm with hm | ⟨a, ps', hm⟩
  · refine .inl fun p b r hs hrun => ?_
    obtain ⟨a, q, hq, -⟩ := bind_ok.mp hrun
    exact hm p a q hs hq
  · exact Determined.after hm (hf a ps')

/-- A quiet step whose value depends on the pieces only is in step with itself. -/
theorem inStep_of_determined (hk : Keeps id m)
    (h : ∀ ps, Determined m ps ∨ ∀ p a q, p.stream.Holds ps → m p = .ok a q → E a) :
    InStepOr E Eq m m := by
  intro ps p₁ p₂ a q₁ hp hrun
  rcases h ps with (hfail | ⟨b, ps', hyields⟩) | hexception
  · exact absurd hrun (hfail p₁ a q₁ hp.left)
  · obtain ⟨r₁, hr₁, hs₁, -⟩ := hyields _ p₁ rfl hp.left
    obtain ⟨r₂, hr₂, hs₂, -⟩ := hyields _ p₂ rfl hp.right
    rw [hrun] at hr₁
    cases hr₁
    refine .inr ⟨a, r₂, ps', hr₂, rfl, hs₁, hs₂, ?_⟩
    rw [hk.session hr₂, hk.session hrun, hp.session]
  · exact .inl (hexception p₁ a q₁ hp.left hrun)

theorem determined_text? : Determined text? ps := by
  cases ps with
  | nil => exact .inr ⟨_, _, fun _ => yields_text?_nil⟩
  | cons p ps =>
    cases p with
    | plain word => exact .inr ⟨_, _, fun _ => yields_text?_plain⟩
    | quoted body => exact .inr ⟨_, _, fun _ => yields_text?_quoted⟩

theorem determined_description? {wording : Wording} : Determined (description? wording) ps := by
  refine Determined.after (fun _ => yields_seesStart) ?_
  cases hbegins : begins '"' ps with
  | false => exact determined_pure
  | true =>
    cases ps with
    | nil => cases hbegins
    | cons p ps =>
      cases p with
      | plain word =>
        exact .inl fun p a q hs _ => by
          rw [begins_quote_plain (hs.wellFormed _ List.mem_cons_self)] at hbegins
          cases hbegins
      | quoted body =>
        refine Determined.after (fun _ => yields_nextQuoted) ?_
        dsimp only
        split
        · exact refuses_fail.determined
        · exact determined_pure

/-- An expression does not begin with a quote. -/
theorem determined_expression (h : begins '"' ps = false) : Determined expression ps := by
  obtain ⟨result, rest, hgather⟩ := gather_holds (Ceiling.expressionLength + 1) "" (.inr h)
  have hnext (p : Progress) (hs : p.stream.Holds ps) :
      ∃ s', onStream nextExpression p = .ok (result.bind Arithmetic.evaluate) { p with stream := s' } ∧
        ∀ joined, result = .ok joined → s'.Holds rest := by
    obtain ⟨s', hs', hrest⟩ := hgather p.stream hs
    exact ⟨s', by rw [onStream, nextExpression, readExpression, hs'], hrest⟩
  cases hvalue : result.bind Arithmetic.evaluate with
  | error failure =>
    refine .inl fun p a q hs hrun => ?_
    obtain ⟨s', hs', -⟩ := hnext p hs
    obtain ⟨v, r, hr, hrun⟩ := bind_ok.mp hrun
    rw [hs', hvalue] at hr
    cases hr
    exact refuses_fail _ _ _ hrun
  | ok value =>
    obtain ⟨joined, hjoined⟩ : ∃ joined, result = .ok joined := by
      cases result with
      | error failure => cases hvalue
      | ok joined => exact ⟨joined, rfl⟩
    refine .inr ⟨value, rest, fun l p hp hs => ?_⟩
    obtain ⟨s', hs', hrest⟩ := hnext p hs
    refine ⟨{ p with stream := s' }, ?_, hrest joined hjoined, hp⟩
    exact bind_ok.mpr ⟨_, _, hs', by rw [hvalue]; rfl⟩

theorem begins_quote_of_begins {c : Char} (h : begins c ps = true) (hc : c ≠ '"') :
    begins '"' ps = false := by
  rw [begins, decide_eq_true_eq] at h
  rw [begins, h, decide_eq_false_iff_not, Option.some.injEq]
  exact hc

theorem determined_instances? : Determined instances? ps := by
  refine Determined.after (fun _ => yields_peekInt) ?_
  cases ps with
  | nil => exact Determined.after (fun _ => yields_seesStart) determined_pure
  | cons p ps =>
    rw [List.head?_cons, Option.bind_some]
    cases hint : Text.int32? p.first.toList with
    | some value =>
      exact Determined.after (fun _ => yields_nextInt hint) determined_pure
    | none =>
      refine Determined.after (fun _ => yields_seesStart) ?_
      cases hbegins : begins '(' (p :: ps) with
      | false => exact determined_pure
      | true =>
        exact (determined_expression (begins_quote_of_begins hbegins (by decide))).bind
          fun _ _ => determined_pure

end Determined

section Tokens

theorem isName_quote {ofMember : Bool} {text : List Char} (h : text.head? = some '"') :
    isName ofMember text = false := by
  cases text with
  | nil => cases h
  | cons c rest =>
    obtain rfl : c = '"' := Option.some.inj h
    cases ofMember <;> rfl

/-- What a text begins with stays if it is no capital. -/
theorem head?_toLower {c : Char} {text : String} (hc : c.toLower = c)
    (h : text.toList.head? = some c) : text.toLower.toList.head? = some c := by
  have hmap : text.toLower.toList = text.toList.map Char.toLower := String.toList_map
  rw [hmap, List.head?_map, h, Option.map_some, hc]

/-- A word that is found among some choices does not begin with a quote. -/
theorem ne_toLower_of_quote {text word : String} (h : text.toList.head? = some '"')
    (hword : word.toList.head? ≠ some '"') : text.toLower ≠ word := by
  rintro rfl
  exact hword (head?_toLower (by decide) h)

/-- No keyword begins with a quote. -/
theorem ofToken_quote {κ : Type} {words : List (String × κ)} {token : Token}
    (hwords : ∀ w ∈ words, w.1.toList.head? ≠ some '"')
    (h : token.text.toList.head? = some '"') : Lead.ofToken words token = .other := by
  have hlookup : words.lookup token.text.toLower = none := by
    rw [List.lookup_eq_none_iff]
    intro w hw
    simpa using ne_toLower_of_quote h (hwords w hw)
  rw [Lead.ofToken, hlookup, h]
  rfl

theorem ofToken_congr {κ : Type} {words : List (String × κ)} {token token' : Token}
    (h : token'.text = token.text) : Lead.ofToken words token' = Lead.ofToken words token := by
  rw [Lead.ofToken, h]
  rfl

theorem ofToken_comment {κ : Type} {words : List (String × κ)} {token : Token}
    (h : Lead.ofToken words token = .comment) : token.text.toList.head? = some '#' := by
  unfold Lead.ofToken at h
  split at h
  · cases h
  · split at h
    · assumption
    · cases h

theorem inStep_tokenText :
    InStepOr (fun text => text.toList.head? = some '"') Eq tokenText tokenText := by
  refine inStep_token? (inStep_pure rfl) fun token token' htext _ => ?_
  refine .ahead (inStep_pure ?_) fun hquote p text q hrun => ?_
  · rw [Option.map_some, Option.map_some, htext]
  · obtain ⟨rfl, -⟩ := pure_ok.mp hrun
    exact hquote

/-- Names of nodes and of members are read alike. -/
theorem inStep_anyName {ofMember : Bool} {tooLong : Nat → Cause} {malformed : String → Cause} :
    InStep Eq (anyName ofMember tooLong malformed) (anyName ofMember tooLong malformed) := by
  refine inStep_line fun n n' => inStep_token? refuses_failAt.inStep fun token token' htext _ => ?_
  dsimp only
  rw [htext]
  refine .ahead (inStep_limits.next fun l => ?_) fun hquote p text q hrun => ?_
  · split
    · exact refuses_fail.inStep
    · split
      · exact refuses_fail.inStep
      · exact inStep_pure rfl
  · obtain ⟨l, r, -, hrun⟩ := bind_ok.mp hrun
    rw [isName_quote hquote] at hrun
    split at hrun
    · exact refuses_fail _ _ _ hrun
    · exact refuses_fail _ _ _ hrun

theorem inStep_name : InStep Eq name name := inStep_anyName

theorem inStep_memberName : InStep Eq memberName memberName := inStep_anyName

theorem inStep_text? : InStep Eq text? text? :=
  inStep_of_determined keeps_text? fun _ => .inl determined_text?

theorem inStep_text {missing : Cause} : InStep Eq (text missing) (text missing) := by
  refine inStep_text?.next fun text => ?_
  cases text with
  | none => exact refuses_fail.inStep
  | some text => exact inStep_pure rfl

theorem inStep_description? {wording : Wording} :
    InStep Eq (description? wording) (description? wording) :=
  inStep_of_determined keeps_description? fun _ => .inl determined_description?

theorem inStep_label? : InStep Eq label? label? := by
  refine inStep_description?.next fun text => ?_
  cases text with
  | none => exact inStep_pure rfl
  | some text =>
    dsimp only
    split
    · exact refuses_fail.inStep
    · exact inStep_pure rfl

theorem inStep_help? : InStep Eq help? help? := inStep_description?

theorem inStep_instances? : InStep Eq instances? instances? :=
  inStep_of_determined keeps_instances? fun _ => .inl determined_instances?

/-- No word of a choice begins with a quote. -/
theorem find?_word_quote {κ : Type} {choices : List κ} {word : κ → String} {text : String}
    (hwords : ∀ k ∈ choices, (word k).toList.head? ≠ some '"')
    (h : text.toList.head? = some '"') :
    choices.find? (fun k => word k = text.toLower) = none := by
  refine List.find?_eq_none.mpr fun k hk => ?_
  simpa using (ne_toLower_of_quote h (hwords k hk)).symm

theorem inStep_access : InStep Eq access access := by
  refine inStep_line fun n n' => inStep_token? refuses_failAt.inStep fun token token' htext _ => ?_
  dsimp only
  rw [htext]
  refine .ahead inStep_taking fun hquote p a q hrun => ?_
  have hnone : Access.ofWord? token.text = none := find?_word_quote (by decide) hquote
  rw [Access.ofText, hnone] at hrun
  exact refuses_taking _ _ _ hrun

/-- A bound is a text that is read alike, unless it begins with a quote. -/
theorem inStep_bound : InStepOr (fun text => text.toList.head? = some '"') Eq bound bound := by
  refine inStep_of_determined keeps_bound fun ps => ?_
  cases ps with
  | nil =>
    exact .inl (Determined.after (fun _ => yields_seesStart)
      (Determined.after (fun _ => yields_token?_nil) refuses_fail.determined))
  | cons p ps =>
    cases p with
    | plain word =>
      refine .inl (Determined.after (fun _ => yields_seesStart) ?_)
      cases hbegins : begins '(' (.plain word :: ps) with
      | true =>
        exact (determined_expression (begins_quote_of_begins hbegins (by decide))).bind
          fun _ _ => determined_pure
      | false =>
        refine .inr ⟨String.ofList word, ps, fun l => yields_token? fun token htoken => ?_⟩
        dsimp only
        rw [htoken]
        exact yields_pure
    | quoted body =>
      refine .inr fun p text q hs hrun => ?_
      obtain ⟨sees, r, hr, hrun⟩ := bind_ok.mp hrun
      rw [seesStart, look, hs.peekStartsWith] at hr
      cases hr
      obtain ⟨token, r, hr, hrun⟩ := bind_ok.mp hrun
      obtain ⟨c, line, hnext, hat⟩ := hs.next_cons
      rw [token?, onStream, hnext] at hr
      cases hr
      obtain ⟨rfl, -⟩ := pure_ok.mp hrun
      rw [hat.text, Piece.head?_first hat.wellFormed]
      rfl

theorem inStep_caseRule : InStep Eq caseRule caseRule := by
  refine inStep_text.next fun text => ?_
  split
  · exact inStep_pure rfl
  · exact refuses_fail.inStep

theorem inStep_capacity {construct : Construct} {opened opened' : Nat} :
    InStep Eq (capacity construct opened) (capacity construct opened') := by
  refine inStep_tokenText.bind_or (fun text text' htext => ?_) fun text hquote p a q hrun => ?_
  · subst htext
    split
    · exact inStep_pure rfl
    · exact refuses_failWithin.inStep
  · have hnone : Capacity.ofWord? text = none := find?_word_quote (by decide) hquote
    rw [hnone] at hrun
    exact refuses_failWithin _ _ _ hrun

theorem inStep_keys {construct : Construct} {opened opened' : Nat} :
    InStep Eq (keys construct opened) (keys construct opened') := by
  refine inStep_tokenText.bind_or (fun text text' htext => ?_) fun text hquote p a q hrun => ?_
  · subst htext
    split
    · exact inStep_pure rfl
    · exact refuses_failWithin.inStep
  · split at hrun
    · rename_i htext
      rw [htext] at hquote
      revert hquote
      decide
    · exact refuses_failWithin _ _ _ hrun

theorem inStep_referencePath : InStep Eq referencePath referencePath := by
  refine inStep_text.next fun path => ?_
  split
  · split
    · exact refuses_fail.inStep
    · split
      · exact refuses_fail.inStep
      · exact inStep_pure rfl
  · exact refuses_fail.inStep

theorem inStep_attachment {info : Info} {here : Path} :
    InStep Eq (attachment info here) (attachment info here) :=
  inStep_name.next fun _ => inStep_session.next fun _ =>
    inStep_taking.next fun _ => inStep_taking

end Tokens

end Reading
end DeviceSchema.Statement
