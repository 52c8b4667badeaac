import DeviceSchema.Proofs.Reading.Quiet
import DeviceSchema.Proofs.Token.Lines

/-! # Orderly reading

Some failures are made for a misuse of the stream or of the tree, and no source is to blame
for them: a token is handed back while another one waits, an integer was seen but is not
read, a condition is attached in the other table.  They are **internal**
(`Cause.IsInternal`).

A step is **orderly** if it uses the stream as intended (`Orderly`): it hands back only the
token that was read last and gives up a line only then, and it reads an integer only where
it has seen one.  Steps that leave the stream alone are orderly if they have no defect of
their own (`Still`).  Orderly steps compose, with one token at most on loan between them, so
a reading is shown to be orderly once, along its text.  Two things follow:

* on a stream that reads the lines of a source, an orderly step never fails for an internal
  reason, and the stream goes on reading those lines (`Orderly.reads`);
* whatever the operations on the stream keep up, an orderly step keeps up, whether it fails
  or not (`Orderly.keeps`).  This holds of a rank (`Orderly.rank_after_le`), of rules about
  lines and of reading the lines of a source (`keptUp_obeys`, `keptUp_reads`).
-/
namespace DeviceSchema
open Token (Line)

/-- A failure that no source is to blame for. -/
inductive Statement.Cause.IsInternal : Statement.Cause → Prop
  | alreadyHandedBack (line : Nat) : IsInternal (.token (.alreadyHandedBack line))
  | notAnInteger (text : String) (line : Nat) : IsInternal (.token (.notAnInteger text line))
  | differentTables : IsInternal (.defect .differentTables)

/-- Every condition is registered in the table of its source. -/
def Session.AtHome (s : Session) : Prop :=
  ∀ kind, ∀ c ∈ (s.table kind).conditions, c.source.table = kind

namespace Statement.Reading
variable {α β : Type}

/-- The step succeeded with a progress that `keeps` holds of, or it failed for a reason that is
not internal. -/
def EndsWell (keeps : Progress → Prop) : EStateM.Result Failure Progress α → Prop
  | .ok _ q => keeps q
  | .error failure _ => ¬ failure.cause.IsInternal

/-- A step that leaves the stream alone and has no defect of its own. -/
structure Still (m : Reading α) : Prop where
  stream : ∀ p, (after m p).stream = p.stream
  atHome : ∀ p, p.session.AtHome → EndsWell (·.session.AtHome) (m p)

/-- A step that uses the stream as intended.  The token, if there is one, was read last and
may be handed back. -/
inductive Orderly : {α : Type} → Option Token → Reading α → Prop
  | still {α : Type} {held : Option Token} {m : Reading α} (h : Still m) : Orderly held m
  | bind {α β : Type} {held : Option Token} {m : Reading α} {f : α → Reading β}
      (hm : Orderly held m) (hf : ∀ a, Orderly none (f a)) : Orderly held (m >>= f)
  | token {α : Type} {held : Option Token} {f : Option Token → Reading α}
      (hf : ∀ token, Orderly token (f token)) : Orderly held (token? >>= f)
  | handBack (token : Token) : Orderly (some token) (handBack token)
  | dropLine (token : Token) : Orderly (some token) dropLine
  | quoted {held : Option Token} : Orderly held (onStream Token.Stream.nextQuoted)
  | expression {held : Option Token} : Orderly held (onStream Token.Stream.nextExpression)
  | integer {α : Type} {held : Option Token} {f : Except Token.Fault Int → Reading α}
      {m : Reading α} (hf : ∀ value, Orderly none (f (.ok value)))
      (hfail : ∀ fault, ∃ cause, f (.error fault) = fail cause) (hm : Orderly none m) :
      Orderly held (look Token.Stream.peekInt >>= fun seen =>
        if seen.isSome then onStream Token.Stream.nextInt >>= f else m)

/-! ## What orderly steps keep up -/

/-- The stream reads some lines, right behind the token on loan, and conditions are where
they belong. -/
structure Ready (lines : List Line) (held : Option Token) (p : Progress) : Prop where
  reads : Token.Stream.Reads lines p.stream
  behind : ∀ t ∈ held, Token.Stream.Behind lines t p.stream
  atHome : p.session.AtHome

section Keeping
variable {lines : List Line} {held : Option Token} {p : Progress} {m : Reading α}

/-- Nothing is on loan. -/
theorem Ready.settled (hreads : Token.Stream.Reads lines p.stream) (hhome : p.session.AtHome) :
    Ready lines none p := by
  refine ⟨hreads, ?_, hhome⟩
  rintro t ⟨⟩

/-- A still step leaves nothing on loan and the rest as it was. -/
theorem Still.ready (h : Still m) (hp : Ready lines held p) : EndsWell (Ready lines none) (m p) := by
  have hstream := h.stream p
  have hsession := h.atHome p hp.atHome
  unfold after at hstream
  cases hm : m p with
  | ok a q =>
    rw [hm] at hstream hsession
    exact .settled (hstream ▸ hp.reads) hsession
  | error failure q =>
    rw [hm] at hsession
    exact hsession

/-- Reading a token leaves it on loan. -/
theorem Ready.next (hp : Ready lines held p) :
    Ready lines p.stream.next.1 { p with stream := p.stream.next.2 } := by
  obtain ⟨hreads, hbehind⟩ := hp.reads.next_behind
  exact ⟨hreads, hbehind, hp.atHome⟩

/-- An integer that is seen is read. -/
theorem nextInt_of_peekInt {s : Token.Stream} (h : Token.Stream.Reads lines s) {value : Int}
    (hseen : s.peekInt = some value) : s.nextInt.1 = .ok value := by
  rw [Token.Stream.peekInt, h.peek, ← h.head?_tokens] at hseen
  obtain ⟨text, htext, hvalue⟩ := Option.bind_eq_some_iff.mp hseen
  unfold Token.Stream.nextInt
  dsimp only
  rw [htext, Option.getD_some, hvalue]

/-- **An orderly step never fails for an internal reason, and the stream goes on reading.** -/
theorem Orderly.reads (h : Orderly held m) (hp : Ready lines held p) :
    EndsWell (Ready lines none) (m p) := by
  induction h generalizing p with
  | still h => exact h.ready hp
  | @bind α β held m f hm hf ihm ihf =>
    have hend := ihm hp
    show EndsWell _ (EStateM.bind m f p)
    unfold EStateM.bind
    cases hmp : m p with
    | ok a q =>
      rw [hmp] at hend
      exact ihf a hend
    | error failure q =>
      rw [hmp] at hend
      exact hend
  | token hf ih => exact ih _ hp.next
  | handBack token =>
    obtain ⟨s', hok, hreads, -⟩ := (hp.behind token rfl).handBack
    unfold Reading.handBack
    rw [hok]
    exact .settled hreads hp.atHome
  | dropLine token =>
    exact .settled (hp.reads.dropLine (hp.behind token rfl).handedBack) hp.atHome
  | quoted => exact .settled hp.reads.nextQuoted_reads hp.atHome
  | expression => exact .settled hp.reads.nextExpression hp.atHome
  | @integer α held f m hf hfail hm ihf ihm =>
    show EndsWell _ ((if p.stream.peekInt.isSome then onStream Token.Stream.nextInt >>= f else m) p)
    split
    · rename_i hseen
      obtain ⟨value, hvalue⟩ := Option.isSome_iff_exists.mp hseen
      have hint : (onStream Token.Stream.nextInt >>= f) p =
          f (.ok value) { p with stream := p.stream.nextInt.2 } := by
        rw [← nextInt_of_peekInt hp.reads hvalue]
        rfl
      rw [hint]
      exact ihf value (.settled hp.reads.nextInt hp.atHome)
    · exact ihm (.settled hp.reads hp.atHome)

end Keeping

section KeepingUp
variable {held : Option Token} {p : Progress} {m : Reading α}
variable {inv : Option Token → Token.Stream → Prop}

/-- What operations on a stream keep up, with a token on loan or none. -/
structure KeptUp (inv : Option Token → Token.Stream → Prop) : Prop where
  /-- A token on loan need not be handed back. -/
  settled {held : Option Token} {s : Token.Stream} (h : inv held s) : inv none s
  next {held : Option Token} {s : Token.Stream} (h : inv held s) : inv s.next.1 s.next.2
  handBack {t : Token} {s s' : Token.Stream} (h : inv (some t) s)
    (hback : s.handBack t = .ok s') : inv none s'
  dropLine {t : Token} {s : Token.Stream} (h : inv (some t) s) : inv none s.dropLine
  quoted {s : Token.Stream} (h : inv none s) : inv none s.nextQuoted.2
  expression {s : Token.Stream} (h : inv none s) : inv none s.nextExpression.2
  integer {s : Token.Stream} (h : inv none s) : inv none s.nextInt.2

/-- **An orderly step keeps up what operations keep up**, whether it fails or not. -/
theorem Orderly.keeps (h : Orderly held m) (hkept : KeptUp inv) (hp : inv held p.stream) :
    inv none (after m p).stream := by
  induction h generalizing p with
  | still h => exact h.stream p ▸ hkept.settled hp
  | @bind α β held m f hm hf ihm ihf =>
    have hend := ihm hp
    show inv none (after (EStateM.bind m f) p).stream
    unfold after EStateM.bind
    unfold after at hend
    cases hmp : m p with
    | ok a q =>
      rw [hmp] at hend
      exact ihf a hend
    | error failure q =>
      rw [hmp] at hend
      exact hend
  | token hf ih => exact ih _ (hkept.next hp)
  | handBack token =>
    unfold after Reading.handBack
    cases hback : p.stream.handBack token with
    | ok s => exact hkept.handBack hp hback
    | error fault =>
      -- The stream stays as it is, and nothing is on loan behind a step.
      exact hkept.settled hp
  | dropLine token => exact hkept.dropLine hp
  | quoted => exact hkept.quoted (hkept.settled hp)
  | expression => exact hkept.expression (hkept.settled hp)
  | @integer α held f m hf hfail hm ihf ihm =>
    show inv none (after (if p.stream.peekInt.isSome then onStream Token.Stream.nextInt >>= f
      else m) p).stream
    split
    · have hint := hkept.integer (hkept.settled hp)
      show inv none (after (f p.stream.nextInt.1) { p with stream := p.stream.nextInt.2 }).stream
      cases p.stream.nextInt.1 with
      | ok value => exact ihf value hint
      | error fault =>
        obtain ⟨cause, hcause⟩ := hfail fault
        rw [hcause]
        exact hint
    · exact ihm (hkept.settled hp)

/-- An orderly step that succeeds, with nothing on loan. -/
theorem Orderly.keeps_ok (h : Orderly none m) (hkept : KeptUp inv) {q : Progress} {a : α}
    (hm : m p = .ok a q) (hp : inv none p.stream) : inv none q.stream := by
  have hafter := h.keeps hkept hp
  unfold after at hafter
  rwa [hm] at hafter

/-- A rank, where a token on loan counts among what is left. -/
theorem keptUp_rank (n : Nat) : KeptUp fun held s =>
    s.rank ≤ n ∧ ∀ t ∈ held, ∀ s', s.handBack t = .ok s' → s'.rank ≤ n where
  settled h := ⟨h.1, nofun⟩
  next {held s} h := by
    refine ⟨s.rank_next_le.trans h.1, fun t ht s' hback => ?_⟩
    obtain ⟨s'', hback', hle⟩ := Token.Stream.rank_next_some (Prod.ext ht rfl)
    obtain rfl : s'' = s' := Except.ok.inj (hback'.symm.trans hback)
    exact hle.trans h.1
  handBack h hback := ⟨h.2 _ rfl _ hback, nofun⟩
  dropLine h := ⟨(Token.Stream.rank_dropLine_le _).trans h.1, nofun⟩
  quoted h := ⟨(Token.Stream.rank_nextQuoted_le _).trans h.1, nofun⟩
  expression h := ⟨(Token.Stream.rank_nextExpression_le _).trans h.1, nofun⟩
  integer h := ⟨(Token.Stream.rank_nextInt_le _).trans h.1, nofun⟩

/-- A rule about lines, to which a token on loan is near. -/
theorem keptUp_obeys (rule : Token.LineRule) : KeptUp fun held s =>
    s.Obeys rule ∧ ∀ t ∈ held, rule.near t.line s.line where
  settled h := ⟨h.1, nofun⟩
  next h := h.1.next
  handBack h hback := ⟨h.1.handBack (h.2 _ rfl) hback, nofun⟩
  dropLine h := ⟨h.1.dropLine, nofun⟩
  quoted h := ⟨h.1.nextQuoted, nofun⟩
  expression h := ⟨h.1.nextExpression, nofun⟩
  integer h := ⟨h.1.nextInt, nofun⟩

/-- The lines of a source, right behind a token on loan. -/
theorem keptUp_reads (lines : List Line) : KeptUp fun held s =>
    s.Reads lines ∧ ∀ t ∈ held, Token.Stream.Behind lines t s where
  settled h := ⟨h.1, nofun⟩
  next h := h.1.next_behind
  handBack {t s s'} h hback := by
    obtain ⟨s'', hback', hreads, -⟩ := (h.2 t rfl).handBack
    obtain rfl : s'' = s' := Except.ok.inj (hback'.symm.trans hback)
    exact ⟨hreads, nofun⟩
  dropLine h := ⟨h.1.dropLine (h.2 _ rfl).handedBack, nofun⟩
  quoted h := ⟨h.1.nextQuoted_reads, nofun⟩
  expression h := ⟨h.1.nextExpression, nofun⟩
  integer h := ⟨h.1.nextInt, nofun⟩

/-- **An orderly step makes the rank no greater**, whether it fails or not.  A token on loan
counts among what is left. -/
theorem Orderly.rank_after_le (h : Orderly held m) {n : Nat} (hrank : p.stream.rank ≤ n)
    (hheld : ∀ t ∈ held, ∀ s, p.stream.handBack t = .ok s → s.rank ≤ n) :
    (after m p).stream.rank ≤ n :=
  (h.keeps (keptUp_rank n) ⟨hrank, hheld⟩).1

/-- **An orderly step that succeeds makes the rank no greater.** -/
theorem Orderly.rank_le (h : Orderly held m) {q : Progress} {a : α} {n : Nat}
    (hm : m p = .ok a q) (hrank : p.stream.rank ≤ n)
    (hheld : ∀ t ∈ held, ∀ s, p.stream.handBack t = .ok s → s.rank ≤ n) : q.stream.rank ≤ n := by
  have hafter := h.rank_after_le hrank hheld
  unfold after at hafter
  rwa [hm] at hafter

end KeepingUp
end Statement.Reading
end DeviceSchema
