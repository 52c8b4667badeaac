import DeviceSchema.Proofs.Reading.Quiet
import DeviceSchema.Proofs.Token.Holds

/-! # Reading pieces

What a step of reading does is said here by pieces: a step **yields** a value from some
pieces when it succeeds with this value wherever the stream holds these pieces, and
leaves what is left of them (`Yields`).  A composite step yields what its parts do, one
after the other (`Yields.bind`).

The limits are all that such a step looks at of the session.
-/
namespace DeviceSchema.Statement.Reading
open Token (Piece)
open Token.Stream

section Yields
variable {α β : Type} {l : Limits} {ps ps' ps'' : List Piece}

/-- Wherever the stream holds `ps`, the step gives `a` and leaves `ps'`. -/
def Yields (l : Limits) (m : Reading α) (ps : List Piece) (a : α) (ps' : List Piece) : Prop :=
  ∀ p : Progress, p.session.limits = l → p.stream.Holds ps →
    ∃ q, m p = .ok a q ∧ q.stream.Holds ps' ∧ q.session.limits = l

theorem Yields.bind {m : Reading α} {f : α → Reading β} {a : α} {b : β}
    (hm : Yields l m ps a ps') (hf : Yields l (f a) ps' b ps'') : Yields l (m >>= f) ps b ps'' := by
  intro p hp hs
  obtain ⟨q, hq, hs', hp'⟩ := hm p hp hs
  obtain ⟨r, hr, hs'', hp''⟩ := hf q hp' hs'
  exact ⟨r, bind_ok.mpr ⟨a, q, hq, hr⟩, hs'', hp''⟩

theorem yields_pure {a : α} : Yields l (pure a) ps a ps := by
  intro p hp hs
  exact ⟨p, rfl, hs, hp⟩

/-- Which line the stream has reached does not matter. -/
theorem yields_line {f : Nat → Reading α} {a : α} (h : ∀ n, Yields l (f n) ps a ps') :
    Yields l (line >>= f) ps a ps' := by
  intro p hp hs
  obtain ⟨q, hq, hs', hp'⟩ := h p.stream.line p hp hs
  exact ⟨q, bind_ok.mpr ⟨_, p, rfl, hq⟩, hs', hp'⟩

theorem yields_limits : Yields l limits ps l ps := by
  intro p hp hs
  exact ⟨p, by rw [limits, hp], hs, hp⟩

theorem yields_onSession {change : Session → Session} (h : ∀ s, (change s).limits = s.limits) :
    Yields l (onSession change) ps () ps :=
  fun p hp hs => ⟨_, rfl, hs, (h p.session).trans hp⟩

theorem yields_note {change : Statistics → Statistics} : Yields l (note change) ps () ps :=
  yields_onSession fun _ => rfl

theorem yields_tell {event : Event} : Yields l (tell event) ps () ps := by
  intro p hp hs
  exact ⟨_, rfl, hs, hp⟩

theorem yields_taking {result : Except Defect α} {a : α} (h : result = .ok a) :
    Yields l (taking result) ps a ps := by
  rw [h]
  exact yields_pure

theorem yields_changing {σ : Type} {result : EStateM.Result Defect σ Unit} {s : σ}
    (h : result = .ok () s) : Yields l (changing result) ps s ps :=
  yields_taking (changed_ok.mpr h)

theorem yields_closing {result : Except Defect α} {a : α} {construct : Construct} {name : String}
    {line : Nat} (h : result = .ok a) : Yields l (closing construct name line result) ps a ps := by
  rw [h]
  exact yields_pure

/-! ## Tokens -/

theorem yields_token?_nil : Yields l token? [] none [] := by
  intro p hp hs
  obtain ⟨s', hnext, hs'⟩ := hs.next_nil
  exact ⟨{ p with stream := s' }, by rw [token?, onStream, hnext], hs', hp⟩

/-- Reading a plain word moves behind it and changes nothing else. -/
theorem token?_plain {p : Progress} {word : List Char} (hs : p.stream.Holds (.plain word :: ps)) :
    ∃ token s', token? p = .ok (some token) { p with stream := s' } ∧
      token.text = String.ofList word ∧ s'.Holds ps := by
  obtain ⟨c, line, hnext, hat⟩ := hs.next_cons
  have htext := hat.text
  rw [Piece.first_plain hat.wellFormed] at htext
  exact ⟨Token.ofCursor c, behind c line, by rw [token?, onStream, hnext], htext, holds_behind hat⟩

/-- Only the text of the token can matter, as its place depends on the layout. -/
theorem yields_token? {word : List Char} {f : Option Token → Reading α} {a : α}
    (h : ∀ token : Token, token.text = String.ofList word → Yields l (f (some token)) ps a ps') :
    Yields l (token? >>= f) (.plain word :: ps) a ps' := by
  intro p hp hs
  obtain ⟨token, s', htoken, htext, hs'⟩ := token?_plain hs
  obtain ⟨q, hq, hs', hp'⟩ := h token htext { p with stream := s' } hp hs'
  exact ⟨q, bind_ok.mpr ⟨_, _, htoken, hq⟩, hs', hp'⟩

/-- A token that is read and handed back stays where it is. -/
theorem yields_handBack {p : Piece} {f : Option Token → Reading α} {a : α}
    (h : ∀ token : Token, token.text = p.first →
      f (some token) = handBack token >>= fun _ => pure a) :
    Yields l (token? >>= f) (p :: ps) a (p :: ps) := by
  intro r hr hs
  obtain ⟨c, line, hnext, hat⟩ := hs.next_cons
  obtain ⟨s', hback, hs'⟩ := handBack_behind line hat
  refine ⟨{ r with stream := s' }, ?_, hs', hr⟩
  refine bind_ok.mpr ⟨_, { r with stream := behind c line }, by rw [token?, onStream, hnext], ?_⟩
  rw [h _ hat.text]
  exact bind_ok.mpr ⟨(), { r with stream := s' }, by rw [handBack, hback], rfl⟩

theorem yields_tokenText {word : List Char} :
    Yields l tokenText (.plain word :: ps) (String.ofList word) ps := by
  refine yields_token? fun token htoken => ?_
  rw [Option.map_some, Option.getD_some, htoken]
  exact yields_pure

theorem yields_seesStart {c : Char} : Yields l (seesStart c) ps (begins c ps) ps := by
  intro p hp hs
  exact ⟨p, by rw [seesStart, look, hs.peekStartsWith], hs, hp⟩

theorem yields_nextQuoted {body : List Char} :
    Yields l (onStream nextQuoted) (.quoted body :: ps) (some (String.ofList body)) ps := by
  intro p hp hs
  obtain ⟨s', hnext, hs'⟩ := hs.nextQuoted
  exact ⟨{ p with stream := s' }, by rw [onStream, hnext], hs', hp⟩

theorem yields_peekInt :
    Yields l (look peekInt) ps (ps.head?.bind fun p => Text.int32? p.first.toList) ps := by
  intro p hp hs
  refine ⟨p, ?_, hs, hp⟩
  rw [look, Token.Stream.peekInt, hs.peek]
  cases ps <;> rfl

/-- An integer that is seen ahead can be read. -/
theorem yields_nextInt {p : Piece} {value : Int} (h : Text.int32? p.first.toList = some value) :
    Yields l (onStream nextInt) (p :: ps) (.ok value) ps := by
  intro r hr hs
  have hpeek : r.stream.peekInt = some value := by
    rw [Token.Stream.peekInt, hs.peek]
    exact h
  obtain ⟨p', rest, s', hps, hnext, hs'⟩ := hs.nextInt hpeek
  obtain ⟨-, rfl⟩ := List.cons.inj hps
  exact ⟨{ r with stream := s' }, by rw [onStream, hnext], hs', hr⟩

/-! ## Texts -/

theorem begins_quoted {body : List Char} : begins '"' (.quoted body :: ps) = true := by
  simp [begins, Piece.spelling]

theorem yields_text?_nil : Yields l text? [] none [] :=
  yields_seesStart.bind (yields_token?_nil.bind yields_pure)

/-- What the stream holds is well formed, so this may be taken for granted. -/
theorem yields_of_wellFormed {m : Reading α} {a : α}
    (h : (∀ p ∈ ps, p.WellFormed) → Yields l m ps a ps') : Yields l m ps a ps' :=
  fun p hp hs => h hs.wellFormed p hp hs

theorem yields_text?_plain {word : List Char} :
    Yields l text? (.plain word :: ps) (some (String.ofList word)) ps := by
  refine yields_of_wellFormed fun hps => yields_seesStart.bind ?_
  rw [begins_quote_plain (hps _ List.mem_cons_self)]
  refine yields_token? fun token htoken => ?_
  rw [Option.map_some, htoken]
  exact yields_pure

theorem yields_text?_quoted {body : List Char} :
    Yields l text? (.quoted body :: ps) (some (String.ofList body)) ps := by
  refine yields_seesStart.bind ?_
  rw [begins_quoted]
  exact yields_nextQuoted

theorem yields_text {text : String} {missing : Cause} (h : Yields l text? ps (some text) ps') :
    Yields l (Reading.text missing) ps text ps' := h.bind yields_pure

theorem yields_description?_none {wording : Wording} (h : begins '"' ps = false) :
    Yields l (description? wording) ps none ps := by
  refine yields_seesStart.bind ?_
  rw [h]
  exact yields_pure

theorem yields_description? {wording : Wording} {body : List Char} (h : isLatin1 body = true) :
    Yields l (description? wording) (.quoted body :: ps)
      (if body = [] then none else some (String.ofList body)) ps := by
  refine yields_seesStart.bind ?_
  rw [begins_quoted]
  refine yields_nextQuoted.bind ?_
  dsimp only
  have hempty : (String.ofList body).isEmpty = true ↔ body = [] := by
    rw [String.isEmpty_iff, String.ofList_eq_empty_iff]
  rw [String.toList_ofList, h, if_neg (by decide)]
  simp only [hempty]
  exact yields_pure

theorem yields_help?_none (h : begins '"' ps = false) : Yields l help? ps none ps :=
  yields_description?_none h

end Yields
end DeviceSchema.Statement.Reading
