import DeviceSchema.Proofs.Reading.Compositional
import DeviceSchema.Proofs.Reading.Quiet
import DeviceSchema.Proofs.Token.Lines

/-! # What readings fail with

Most failures are about no construct: they are made on the line that the stream has reached.
So if `own` holds of these, and steps on the stream keep up what this takes (`Ground`), then a
reading fails only with what `own` holds of, as far as the failures for constructs are among
it (`Ground.compositional`).

In particular a source fails on one of its lines (`read_line`).
-/
namespace DeviceSchema.Statement.Reading
open Token (Stream)

variable {α β : Type} {inv : Stream → Prop} {known : Token → Prop} {own : Failure → Prop}

/-- The step ended with a value and a progress that `keeps` holds of, or with a failure that
`own` holds of. -/
def Ends (keeps : α → Progress → Prop) (own : Failure → Prop) :
    EStateM.Result Failure Progress α → Prop
  | .ok a q => keeps a q
  | .error failure _ => own failure

/-- Where `inv` holds of the stream, the step fails only with what `own` holds of. -/
def FailsOnly (inv : Stream → Prop) (own : Failure → Prop) (m : Reading α) : Prop :=
  ∀ ⦃p : Progress⦄, inv p.stream → Ends (fun _ q => inv q.stream) own (m p)

/-- Steps on the stream keep up `inv`, and where it holds, `own` holds of failures on the line
of the stream. -/
structure Ground (inv : Stream → Prop) (known : Token → Prop) (own : Failure → Prop) :
    Prop where
  line {s : Stream} (h : inv s) (cause : Cause) : own { cause, line := s.line }
  next {s : Stream} (h : inv s) : inv s.next.2 ∧ ∀ t ∈ s.next.1, known t
  handBack {s s' : Stream} {t : Token} (h : inv s) (ht : known t)
    (hback : s.handBack t = .ok s') : inv s'
  dropLine {s : Stream} (h : inv s) : inv s.dropLine
  quoted {s : Stream} (h : inv s) : inv s.nextQuoted.2
  expression {s : Stream} (h : inv s) : inv s.nextExpression.2
  integer {s : Stream} (h : inv s) : inv s.nextInt.2

section Steps

theorem Ends.bind {m : Reading α} {f : α → Reading β} {p : Progress}
    {keeps : α → Progress → Prop} {keeps' : β → Progress → Prop} (hm : Ends keeps own (m p))
    (hf : ∀ a q, keeps a q → Ends keeps' own (f a q)) : Ends keeps' own ((m >>= f) p) := by
  show Ends keeps' own (EStateM.bind m f p)
  unfold EStateM.bind
  cases hmp : m p with
  | ok a q =>
    rw [hmp] at hm
    exact hf a q hm
  | error failure q =>
    rw [hmp] at hm
    exact hm

theorem Ends.ok {keeps : α → Progress → Prop} {r : EStateM.Result Failure Progress α}
    (h : Ends keeps own r) {a : α} {q : Progress} (hr : r = .ok a q) : keeps a q := by
  rwa [hr] at h

theorem Ends.error {keeps : α → Progress → Prop} {r : EStateM.Result Failure Progress α}
    (h : Ends keeps own r) {failure : Failure} {q : Progress} (hr : r = .error failure q) :
    own failure := by
  rwa [hr] at h

theorem FailsOnly.error {m : Reading α} (h : FailsOnly inv own m) {p q : Progress}
    {failure : Failure} (hp : inv p.stream) (hm : m p = .error failure q) : own failure :=
  (h hp).error hm

theorem FailsOnly.bind {m : Reading α} {f : α → Reading β} (hm : FailsOnly inv own m)
    (hf : ∀ a, FailsOnly inv own (f a)) : FailsOnly inv own (m >>= f) :=
  fun _ hp => (hm hp).bind fun a _ hq => hf a hq

/-- **What is made of steps fails only with what `own` holds of.** -/
theorem Ground.compositional (h : Ground inv known own) :
    Compositional own known fun _ m => FailsOnly inv own m where
  pure _ := fun _ hp => hp
  bind hm hf := hm.bind hf
  line hf := fun p hp => hf p.stream.line (h.line hp) hp
  fail cause := fun _ hp => h.line hp cause
  failing hown := fun _ _ => hown
  token {β f} hnone hsome := by
    intro p hp
    obtain ⟨hnext, hknown⟩ := h.next hp
    show Ends _ own (f p.stream.next.1 { p with stream := p.stream.next.2 })
    cases htoken : p.stream.next.1 with
    | none => exact hnone hnext
    | some token => exact hsome token (hknown token htoken) hnext
  handBack {token} ht := by
    intro p hp
    unfold Reading.handBack
    cases hback : p.stream.handBack token with
    | ok s => exact h.handBack hp ht hback
    | error fault => exact h.line hp _
  dropLine := fun _ hp => h.dropLine hp
  quoted := fun _ hp => h.quoted hp
  arithmetic := fun _ hp => h.expression hp
  integer := fun _ hp => h.integer hp
  look _ := fun _ hp => hp
  table kind f hf := fun p hp => hf (p.session.table kind) hp
  length length tooLong m hm := by
    intro p hp
    show Ends _ own ((if p.session.limits.nameLength < length then _ else m) p)
    split
    · exact h.line hp _
    · exact hm hp
  settle c construct name line hfail f hf := by
    intro p hp
    show Ends _ own ((closing construct (name (c.settle p.session.limits).2) line
      (c.settle p.session.limits).1 >>= fun _ => f (c.settle p.session.limits).2) p)
    cases (c.settle p.session.limits).1 with
    | ok u => exact hf _ hp
    | error defect => exact hfail _ _
  onSession _ := fun _ hp => hp
  extending {change} _ := by
    intro p hp
    unfold Reading.extending
    cases change p.session with
    | ok _ s => exact hp
    | error defect s => exact h.line hp _
  tell _ := fun _ hp => hp

end Steps

/-- A failure on a line of a stream within `count` lines. -/
theorem ground_within (count : Nat) :
    Ground (Stream.Obeys (.within count)) (fun t => 1 ≤ t.line ∧ t.line ≤ count)
      fun failure => 1 ≤ failure.line ∧ failure.line ≤ count where
  line h _ := h.line
  next h := h.next
  handBack h ht hback := h.handBack ht hback
  dropLine h := h.dropLine
  quoted h := h.nextQuoted
  expression h := h.nextExpression
  integer h := h.nextInt

end Reading

section Sources
open Reading Compositional
open Token (Stream LineRule)
variable [PatternCompiler] {source : String} {stream : Stream} {s : Session} {failure : Failure}

/-- The progress at the start of a source. -/
def Progress.start (stream : Stream) (s : Session) : Progress :=
  ⟨stream, s, #[.ofDebug "Starting syntax analysis"]⟩

theorem read_error_iff : (read stream s).result = .error failure ↔
    ∃ q, statements (stream.unread + 1) (.start stream s) = .error failure q := by
  have hread : readAll ⟨stream, s, #[.ofDebug "Starting syntax analysis"]⟩ =
      statements (stream.unread + 1) (.start stream s) := rfl
  unfold read
  rw [hread]
  cases statements (stream.unread + 1) (.start stream s) <;> simp

/-- What the first token leads to does not depend on the stream before it. -/
theorem statements_of_next {bound : Nat} {p : Progress} {s₁ : Stream}
    (h : s₁.next = p.stream.next) :
    statements (bound + 1) { p with stream := s₁ } = statements (bound + 1) p := by
  have htoken : token? { p with stream := s₁ } = token? p := by
    unfold token? onStream
    dsimp only
    rw [h]
  exact bind_congr_at htoken fun _ _ _ => rfl

/-- **A source fails on one of its lines.** -/
theorem read_line (hsource : Stream.ofSource source = .ok stream)
    (h : (read stream s).result = .error failure) :
    1 ≤ failure.line ∧ failure.line ≤ Text.lineCount source.toList := by
  obtain ⟨q, h⟩ := read_error_iff.mp h
  have hbyLine : ByLine fun f => 1 ≤ f.line ∧ f.line ≤ Text.lineCount source.toList := by
    rintro _ hline failure rfl
    exact hline .missingName
  have hground := (ground_within (Text.lineCount source.toList)).compositional.statements
    hbyLine (stream.unread + 1)
  cases htoken : stream.next.1 with
  | none =>
    -- A source without a token does not fail.
    obtain hpure | ⟨found, p₁, hfound, hrest⟩ := bind_error.mp h
    · cases hpure
    · obtain rfl : found = none := by
        cases hfound
        exact htoken
      cases hrest
  | some token =>
    have hlines : ∀ l ∈ Stream.numberedLines source,
        (LineRule.within (Text.lineCount source.toList)).good l.number :=
      fun _ => Stream.number_of_mem_numberedLines
    obtain ⟨s₁, hobeys, hnext⟩ := Stream.exists_obeys hsource hlines htoken
    rw [← statements_of_next (p := .start stream s) hnext] at h
    exact hground.error hobeys h

end Sources
end DeviceSchema.Statement
