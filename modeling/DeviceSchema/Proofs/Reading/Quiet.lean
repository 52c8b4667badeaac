import DeviceSchema.Proofs.Tree.Atomic
import DeviceSchema.Statement.Reading

/-! # What a step of reading leaves alone

A step of reading ends with a value or with a failure, and its progress stands
either way (`after`).  What a session shows by some `view` is **kept** by a step
when it is the same after the step as before, however the step ends (`Keeps`).
Keeping composes along `>>=`, so it is shown step by step.

The steps that read tokens, names, texts and values are **quiet**: they keep every
view, that is, they move the stream and leave the whole session as it is.  A step that
only its last part changes the session by **reverts** when it fails (`Reverts`).

What several readings have in common is named here (`anyName`, `member`, `headed`), so that a
property of readings is shown of it once.
-/
namespace DeviceSchema
namespace Statement.Reading

section Outcomes
variable {α β : Type}

theorem taking_ok {result : Except Defect α} {p q : Progress} {a : α} :
    taking result p = .ok a q ↔ result = .ok a ∧ p = q := by
  cases result with
  | ok value => exact pure_ok.trans (by simp)
  | error defect => simp [taking, fail]

theorem closing_ok {construct : Construct} {name : String} {line : Nat}
    {result : Except Defect α} {p q : Progress} {a : α} :
    closing construct name line result p = .ok a q ↔ result = .ok a ∧ p = q := by
  cases result with
  | ok value => exact pure_ok.trans (by simp)
  | error defect => simp [closing, failIn]

/-- Of two parts that are taken the first one with a defect decides. -/
theorem taking_bind_taking {result : Except Defect α} {f : α → Except Defect β} :
    (taking result >>= fun a => taking (f a)) = taking (result >>= f) := by
  cases result <;> rfl

theorem changing_ok {σ : Type} {result : EStateM.Result Defect σ Unit} {s : σ} {p q : Progress} :
    changing result p = .ok s q ↔ result = .ok () s ∧ p = q := by
  rw [taking_ok, changed_ok]

theorem extending_ok {change : Changing Session Unit} {p q : Progress} {u : Unit} :
    extending change p = .ok u q ↔
      ∃ s, change p.session = .ok () s ∧ { p with session := s } = q := by
  unfold extending
  cases change p.session <;> simp

theorem extending_error {change : Changing Session Unit} {p q : Progress} {failure : Failure} :
    extending change p = .error failure q ↔
      ∃ defect s, change p.session = .error defect s ∧
        { cause := .defect defect, line := p.stream.line } = failure ∧
        { p with session := s } = q := by
  unfold extending
  cases change p.session with
  | ok u s => simp
  | error defect s => simp [and_assoc]

theorem onSession_ok {change : Session → Session} {p q : Progress} {u : Unit} :
    onSession change p = .ok u q ↔ { p with session := change p.session } = q := by
  simp [onSession]

end Outcomes

section Keeping
variable {α β γ δ : Type}

/-- The progress that a step makes, whether it fails or not. -/
def after (m : Reading α) (p : Progress) : Progress :=
  match m p with
  | .ok _ q => q
  | .error _ q => q

/-- What the session shows by `view` is the same after the step as before. -/
def Keeps (view : Session → γ) (m : Reading α) : Prop :=
  ∀ p, view (after m p).session = view p.session

variable {view : Session → γ}

theorem Keeps.ok {m : Reading α} (h : Keeps view m) {p q : Progress} {a : α}
    (hm : m p = .ok a q) : view q.session = view p.session := by
  have hp := h p
  rwa [after, hm] at hp

theorem Keeps.error {m : Reading α} (h : Keeps view m) {p q : Progress} {failure : Failure}
    (hm : m p = .error failure q) : view q.session = view p.session := by
  have hp := h p
  rwa [after, hm] at hp

/-- A step that keeps the whole session leaves it as it was. -/
theorem Keeps.session {m : Reading α} (h : Keeps id m) {p q : Progress} {a : α}
    (hm : m p = .ok a q) : q.session = p.session := h.ok hm

theorem Keeps.bind {m : Reading α} {f : α → Reading β} (hm : Keeps view m)
    (hf : ∀ a, Keeps view (f a)) : Keeps view (m >>= f) := by
  intro p
  cases hp : m p with
  | ok a q =>
    have hq : after (m >>= f) p = after (f a) q := by
      simp only [after, Bind.bind, EStateM.bind, hp]
    rw [hq, hf a q, hm.ok hp]
  | error failure q =>
    have hq : after (m >>= f) p = q := by
      simp only [after, Bind.bind, EStateM.bind, hp]
    rw [hq, hm.error hp]

/-- A failure of the step leaves what the session shows by `view` as it was. -/
def Reverts (view : Session → γ) (m : Reading α) : Prop :=
  ∀ p failure q, m p = .error failure q → view q.session = view p.session

theorem Keeps.bind_reverts {m : Reading α} {f : α → Reading β} (hm : Keeps view m)
    (hf : ∀ a, Reverts view (f a)) : Reverts view (m >>= f) := by
  intro p failure q h
  rcases bind_error.mp h with h | ⟨a, r, hr, h⟩
  · exact hm.error h
  · rw [hf a r failure q h, hm.ok hr]

/-- An atomic change of the session is made as a whole or not at all. -/
theorem reverts_extending {change : Changing Session Unit} (hatomic : Atomic change) :
    Reverts view (extending change) := by
  intro p failure q h
  obtain ⟨defect, s, hs, -, rfl⟩ := extending_error.mp h
  rw [hatomic _ defect s hs]

/-- An event that follows changes nothing about that. -/
theorem Reverts.telling {m : Reading Unit} {event : Event} (h : Reverts view m) :
    Reverts view (m >>= fun _ => tell event) := by
  intro p failure q hrun
  rcases bind_error.mp hrun with hrun | ⟨u, r, -, hrun⟩
  · exact h p failure q hrun
  · cases hrun

theorem keeps_pure {a : α} : Keeps view (pure a : Reading α) := fun _ => rfl

theorem keeps_fail {cause : Cause} : Keeps view (fail cause : Reading α) := fun _ => rfl

theorem keeps_failAt {line : Nat} {cause : Cause} :
    Keeps view (failAt line cause : Reading α) := fun _ => rfl

theorem keeps_failWithin {construct : Construct} {line : Nat} {cause : Cause} :
    Keeps view (failWithin construct line cause : Reading α) := fun _ => rfl

theorem keeps_failIn {construct : Construct} {name : String} {line : Nat} {cause : Cause} :
    Keeps view (failIn construct name line cause : Reading α) := fun _ => rfl

theorem keeps_line : Keeps view line := fun _ => rfl

theorem keeps_session : Keeps view session := fun _ => rfl

theorem keeps_limits : Keeps view limits := fun _ => rfl

theorem keeps_onStream {step : Token.Stream → α × Token.Stream} :
    Keeps view (onStream step) := fun _ => rfl

theorem keeps_look {f : Token.Stream → α} : Keeps view (look f) := fun _ => rfl

theorem keeps_tell {event : Event} : Keeps view (tell event) := fun _ => rfl

theorem keeps_taking {result : Except Defect α} : Keeps view (taking result) := by
  cases result with
  | ok value => exact keeps_pure
  | error defect => exact keeps_fail

theorem keeps_closing {construct : Construct} {name : String} {line : Nat}
    {result : Except Defect α} : Keeps view (closing construct name line result) := by
  cases result with
  | ok value => exact keeps_pure
  | error defect => exact keeps_failIn

/-- A change of the session is kept by the views that do not show it. -/
theorem keeps_onSession {change : Session → Session} (h : ∀ s, view (change s) = view s) :
    Keeps view (onSession change) := fun p => h p.session

end Keeping

/-! ## Quiet steps -/

/-- The reading of a name, be it that of a node or of a member. -/
def anyName (ofMember : Bool) (tooLong : Nat → Cause) (malformed : String → Cause) :
    Reading String := do
  let before ← line
  let some token ← token? | failAt before .missingName
  let most := (← limits).nameLength
  if most < token.text.length then fail (tooLong most)
  else if !isName ofMember token.text.toList then fail (malformed token.text)
  else return token.text

/-- What the clauses about members have in common: a label and a help text follow the name. -/
def member (name : String) (add : Info → EStateM.Result Defect Element Unit) :
    Reading Element := do
  note (·.noteMemberName name.length)
  let label ← label?
  let help ← help?
  let value ← taking (Info.ofMember name label help)
  changing (add value)

/-- Goes on with the head of a group or a list, which may have a count. -/
def headed {α : Type} (count : Option Int) (info : Info) (rest : Head → Reading α) : Reading α :=
  match count with
  | some count => changing (Head.declareInstances count { info }) >>= rest
  | none => pure { info } >>= rest

section Quiet
variable {γ : Type} {view : Session → γ}

theorem keeps_token? : Keeps view token? := keeps_onStream

theorem keeps_tokenText : Keeps view tokenText :=
  keeps_token?.bind fun _ => keeps_pure

theorem keeps_handBack {token : Token} : Keeps view (handBack token) := by
  intro p
  unfold after handBack
  cases p.stream.handBack token <;> rfl

theorem keeps_dropLine : Keeps view dropLine := keeps_onStream

theorem keeps_seesStart {c : Char} : Keeps view (seesStart c) := keeps_look

theorem keeps_expression : Keeps view expression := by
  refine keeps_onStream.bind fun result => ?_
  cases result with
  | ok value => exact keeps_pure
  | error failure => exact keeps_fail

theorem keeps_anyName {ofMember : Bool} {tooLong : Nat → Cause} {malformed : String → Cause} :
    Keeps view (anyName ofMember tooLong malformed) := by
  refine keeps_line.bind fun before => keeps_token?.bind fun token => ?_
  cases token with
  | none => exact keeps_failAt
  | some token =>
    refine keeps_limits.bind fun limits => ?_
    dsimp only
    split
    · exact keeps_fail
    · split
      · exact keeps_fail
      · exact keeps_pure

theorem keeps_name : Keeps view name := keeps_anyName

theorem keeps_memberName : Keeps view memberName := keeps_anyName

theorem keeps_text? : Keeps view text? := by
  refine keeps_seesStart.bind fun quoted => ?_
  split
  · exact keeps_onStream
  · exact keeps_token?.bind fun _ => keeps_pure

theorem keeps_text {missing : Cause} : Keeps view (text missing) := by
  refine keeps_text?.bind fun text => ?_
  cases text with
  | none => exact keeps_fail
  | some text => exact keeps_pure

theorem keeps_description? {wording : Wording} : Keeps view (description? wording) := by
  refine keeps_seesStart.bind fun quoted => ?_
  split
  · exact keeps_pure
  · refine keeps_onStream.bind fun text => ?_
    cases text with
    | none => exact keeps_fail
    | some text =>
      dsimp only
      split
      · exact keeps_fail
      · exact keeps_pure

theorem keeps_label? : Keeps view label? := by
  refine keeps_description?.bind fun text => ?_
  cases text with
  | none => exact keeps_pure
  | some text =>
    dsimp only
    split
    · exact keeps_fail
    · exact keeps_pure

theorem keeps_help? : Keeps view help? := keeps_description?

theorem keeps_instances? : Keeps view instances? := by
  refine keeps_look.bind fun count => ?_
  split
  · refine keeps_onStream.bind fun result => ?_
    cases result with
    | ok count => exact keeps_pure
    | error fault => exact keeps_fail
  · refine keeps_seesStart.bind fun opening => ?_
    split
    · exact keeps_expression.bind fun _ => keeps_pure
    · exact keeps_pure

theorem keeps_access : Keeps view access := by
  refine keeps_line.bind fun before => keeps_token?.bind fun token => ?_
  cases token with
  | none => exact keeps_failAt
  | some token => exact keeps_taking

theorem keeps_bound : Keeps view bound := by
  refine keeps_seesStart.bind fun opening => ?_
  split
  · exact keeps_expression.bind fun _ => keeps_pure
  · refine keeps_token?.bind fun token => ?_
    cases token with
    | none => exact keeps_fail
    | some token => exact keeps_pure

theorem keeps_caseRule : Keeps view caseRule := by
  refine keeps_text.bind fun text => ?_
  split
  · exact keeps_pure
  · exact keeps_fail

theorem keeps_capacity {construct : Construct} {opened : Nat} :
    Keeps view (capacity construct opened) := by
  refine keeps_tokenText.bind fun text => ?_
  split
  · exact keeps_pure
  · exact keeps_failWithin

theorem keeps_keys {construct : Construct} {opened : Nat} :
    Keeps view (keys construct opened) := by
  refine keeps_tokenText.bind fun text => ?_
  split
  · exact keeps_pure
  · exact keeps_failWithin

theorem keeps_referencePath : Keeps view referencePath := by
  refine keeps_text.bind fun path => ?_
  split
  · split
    · exact keeps_fail
    · split
      · exact keeps_fail
      · exact keeps_pure
  · exact keeps_fail

theorem keeps_attachment {info : Info} {here : Path} : Keeps view (attachment info here) :=
  keeps_name.bind fun _ => keeps_session.bind fun _ => keeps_taking.bind fun _ => keeps_taking

end Quiet

end Statement.Reading
end DeviceSchema
