import DeviceSchema.Proofs.Lockstep.Steps
import DeviceSchema.Proofs.Token.Tied

/-! # Reading up to where two sources differ

Two readers are **paired** when the texts that they have left are tied and their sessions are the
same (`Paired`).  A step **tracks** another if it does the same from a paired progress, as long as
the first does not read on into the end of its text (`Tracks`); then the readers are paired again.

The second step then also fails where the first one does.  Nothing is said of steps that read on.
So it matters that no step leaves more than it found (`Shrinks`): where the last of several steps
has not gone too far, none has.
-/
namespace DeviceSchema.Statement
open Token (Cursor Indistinct Tied)
open Token.Stream (Abreast behind)

/-- Two readers whose texts are tied, with the same session. -/
structure Paired (t₁ t₂ : List Char) (p₁ p₂ : Progress) : Prop where
  stream : Abreast t₁ t₂ p₁.stream p₂.stream
  session : p₂.session = p₁.session

namespace Reading
variable {α β : Type} {t₁ t₂ : List Char}

/-- A step leaves no more than it found, also where it fails. -/
structure Shrinks (m : Reading α) : Prop where
  ok {p q : Progress} {a : α} (hp : p.stream.Sound) (hrun : m p = .ok a q) :
    q.stream.Sound ∧ q.stream.left.length ≤ p.stream.left.length
  error {p q : Progress} {failure : Failure} (hp : p.stream.Sound)
    (hrun : m p = .error failure q) : q.stream.left.length ≤ p.stream.left.length

/-- The second step succeeds or fails as the first one does, unless the first reads on into its
end. -/
structure Tracks (t₁ t₂ : List Char) (R : α → α → Prop) (m₁ m₂ : Reading α) : Prop where
  shrinks : Shrinks m₁
  follows {p₁ p₂ q₁ : Progress} {a : α} (hp : Paired t₁ t₂ p₁ p₂) (hrun : m₁ p₁ = .ok a q₁)
    (hlength : t₁.length ≤ q₁.stream.left.length) :
    ∃ b q₂, m₂ p₂ = .ok b q₂ ∧ R a b ∧ Paired t₁ t₂ q₁ q₂
  fails {p₁ p₂ q₁ : Progress} {failure : Failure} (hp : Paired t₁ t₂ p₁ p₂)
    (hrun : m₁ p₁ = .error failure q₁) (hlength : t₁.length ≤ q₁.stream.left.length) :
    ∃ failure' q₂, m₂ p₂ = .error failure' q₂

section Composing
variable {R : α → α → Prop} {S : β → β → Prop} {m₁ m₂ : Reading α} {f g : α → Reading β}

theorem Shrinks.bind (hm : Shrinks m₁) (hf : ∀ a, Shrinks (f a)) : Shrinks (m₁ >>= f) where
  ok hp hrun := by
    obtain ⟨a, q, hmp, hfq⟩ := bind_ok.mp hrun
    obtain ⟨hq, hle⟩ := hm.ok hp hmp
    obtain ⟨hr, hle'⟩ := (hf a).ok hq hfq
    exact ⟨hr, hle'.trans hle⟩
  error hp hrun := by
    rcases bind_error.mp hrun with hmp | ⟨a, q, hmp, hfq⟩
    · exact hm.error hp hmp
    · obtain ⟨hq, hle⟩ := hm.ok hp hmp
      exact ((hf a).error hq hfq).trans hle

theorem Tracks.bind (hm : Tracks t₁ t₂ R m₁ m₂) (hrefl : ∀ a, R a a)
    (hf : ∀ a b, R a b → Tracks t₁ t₂ S (f a) (g b)) :
    Tracks t₁ t₂ S (m₁ >>= f) (m₂ >>= g) where
  shrinks := hm.shrinks.bind fun a => (hf a a (hrefl a)).shrinks
  follows {p₁ p₂ r₁ b} hp hrun hlength := by
    obtain ⟨a, q₁, hm₁, hf₁⟩ := bind_ok.mp hrun
    have htracks := hf a a (hrefl a)
    have hle := (htracks.shrinks.ok (hm.shrinks.ok hp.stream.left hm₁).1 hf₁).2
    obtain ⟨a', q₂, hm₂, hR, hq⟩ := hm.follows hp hm₁ (hlength.trans hle)
    obtain ⟨b', r₂, hf₂, hS, hr⟩ := (hf a a' hR).follows hq hf₁ hlength
    exact ⟨b', r₂, bind_ok.mpr ⟨a', q₂, hm₂, hf₂⟩, hS, hr⟩
  fails {p₁ p₂ r₁ failure} hp hrun hlength := by
    rcases bind_error.mp hrun with hm₁ | ⟨a, q₁, hm₁, hf₁⟩
    · obtain ⟨failure', q₂, hm₂⟩ := hm.fails hp hm₁ hlength
      exact ⟨failure', q₂, bind_error.mpr (.inl hm₂)⟩
    · have htracks := hf a a (hrefl a)
      have hle := htracks.shrinks.error (hm.shrinks.ok hp.stream.left hm₁).1 hf₁
      obtain ⟨a', q₂, hm₂, hR, hq⟩ := hm.follows hp hm₁ (hlength.trans hle)
      obtain ⟨failure', r₂, hf₂⟩ := (hf a a' hR).fails hq hf₁ hlength
      exact ⟨failure', r₂, bind_error.mpr (.inr ⟨a', q₂, hm₂, hf₂⟩)⟩

/-- Steps that give the same value, and go on from it. -/
theorem Tracks.next (hm : Tracks t₁ t₂ Eq m₁ m₂) (hf : ∀ a, Tracks t₁ t₂ S (f a) (g a)) :
    Tracks t₁ t₂ S (m₁ >>= f) (m₂ >>= g) :=
  hm.bind (fun _ => rfl) fun a _ hab => hab ▸ hf a

/-- Steps that leave the stream alone, and succeed or fail by the session. -/
theorem tracks_of_still (h : ∀ p₁ p₂, p₂.session = p₁.session →
    (∃ a b q₁ q₂, m₁ p₁ = .ok a q₁ ∧ m₂ p₂ = .ok b q₂ ∧ R a b ∧ q₁.stream = p₁.stream ∧
      q₂.stream = p₂.stream ∧ q₂.session = q₁.session) ∨
    ∃ failure failure' q₁ q₂, m₁ p₁ = .error failure q₁ ∧ m₂ p₂ = .error failure' q₂ ∧
      q₁.stream = p₁.stream) :
    Tracks t₁ t₂ R m₁ m₂ where
  shrinks :=
    { ok := fun {p q a} hp hrun => by
        rcases h p p rfl with ⟨a', b, q₁, q₂, hok, -, -, hstream, -, -⟩ | ⟨_, _, _, _, herror, -⟩
        · cases hrun.symm.trans hok
          rw [hstream]
          exact ⟨hp, Nat.le_refl _⟩
        · cases hrun.symm.trans herror
      error := fun {p q failure} hp hrun => by
        rcases h p p rfl with ⟨a', b, q₁, q₂, hok, -⟩ | ⟨_, _, _, _, herror, -, hstream⟩
        · cases hrun.symm.trans hok
        · cases hrun.symm.trans herror
          rw [hstream] }
  follows {p₁ p₂ q₁ a} hp hrun _ := by
    rcases h p₁ p₂ hp.session with
      ⟨a', b, q, q₂, hok, hrun₂, hR, hstream, hstream₂, hsession⟩ | ⟨_, _, _, _, herror, -⟩
    · cases hrun.symm.trans hok
      exact ⟨b, q₂, hrun₂, hR, by rw [hstream, hstream₂]; exact hp.stream, hsession⟩
    · cases hrun.symm.trans herror
  fails {p₁ p₂ q₁ failure} hp hrun _ := by
    rcases h p₁ p₂ hp.session with ⟨_, _, _, _, hok, -⟩ | ⟨_, failure', _, q₂, -, herror, -⟩
    · cases hrun.symm.trans hok
    · exact ⟨failure', q₂, herror⟩

theorem tracks_pure {a b : α} (h : R a b) : Tracks t₁ t₂ R (pure a) (pure b) :=
  tracks_of_still fun p₁ p₂ hs => .inl ⟨a, b, p₁, p₂, rfl, rfl, h, rfl, rfl, hs⟩

end Composing

section Steps
variable {R : α → α → Prop}

/-- The lines that two readers have reached may differ. -/
theorem tracks_line {f g : Nat → Reading α} (h : ∀ n n', Tracks t₁ t₂ R (f n) (g n')) :
    Tracks t₁ t₂ R (line >>= f) (line >>= g) := by
  have hline : Tracks t₁ t₂ (fun _ _ => True) line line :=
    tracks_of_still fun p₁ p₂ hs => .inl ⟨_, _, p₁, p₂, rfl, rfl, trivial, rfl, rfl, hs⟩
  exact hline.bind (fun _ => trivial) fun n n' _ => h n n'

theorem tracks_limits : Tracks t₁ t₂ Eq limits limits :=
  tracks_of_still fun p₁ p₂ hs => .inl ⟨_, _, p₁, p₂, rfl, rfl, by rw [hs], rfl, rfl, hs⟩

theorem tracks_session : Tracks t₁ t₂ Eq session session :=
  tracks_of_still fun p₁ p₂ hs => .inl ⟨_, _, p₁, p₂, rfl, rfl, hs.symm, rfl, rfl, hs⟩

theorem tracks_tell {event event' : Event} : Tracks t₁ t₂ Eq (tell event) (tell event') :=
  tracks_of_still fun _ _ hs => .inl ⟨(), (), _, _, rfl, rfl, rfl, rfl, rfl, hs⟩

theorem tracks_onSession {change : Session → Session} :
    Tracks t₁ t₂ Eq (onSession change) (onSession change) :=
  tracks_of_still fun _ _ hs => .inl ⟨(), (), _, _, rfl, rfl, rfl, rfl, rfl, congrArg change hs⟩

theorem tracks_note {change : Statistics → Statistics} :
    Tracks t₁ t₂ Eq (note change) (note change) := tracks_onSession

theorem tracks_extending {change : Changing Session Unit} :
    Tracks t₁ t₂ Eq (extending change) (extending change) := by
  refine tracks_of_still fun p₁ p₂ hs => ?_
  unfold extending
  rw [hs]
  cases change p₁.session with
  | ok _ session => exact .inl ⟨(), (), _, _, rfl, rfl, rfl, rfl, rfl, rfl⟩
  | error defect session => exact .inr ⟨_, _, _, _, rfl, rfl, rfl⟩

theorem tracks_fail {cause cause' : Cause} : Tracks t₁ t₂ R (fail cause) (fail cause') :=
  tracks_of_still fun p₁ p₂ _ => .inr ⟨_, _, p₁, p₂, rfl, rfl, rfl⟩

theorem tracks_failAt {line line' : Nat} {cause : Cause} :
    Tracks t₁ t₂ R (failAt line cause) (failAt line' cause) :=
  tracks_of_still fun p₁ p₂ _ => .inr ⟨_, _, p₁, p₂, rfl, rfl, rfl⟩

theorem tracks_failWithin {construct : Construct} {line line' : Nat} {cause cause' : Cause} :
    Tracks t₁ t₂ R (failWithin construct line cause) (failWithin construct line' cause') :=
  tracks_of_still fun p₁ p₂ _ => .inr ⟨_, _, p₁, p₂, rfl, rfl, rfl⟩

/-- What would follow a failure does not matter. -/
theorem tracks_failIn {construct : Construct} {name : String} {line line' : Nat} {cause : Cause}
    {f g : β → Reading α} :
    Tracks t₁ t₂ R (failIn construct name line cause >>= f)
      (failIn construct name line' cause >>= g) :=
  tracks_of_still fun p₁ p₂ _ => .inr ⟨_, _, p₁, p₂, rfl, rfl, rfl⟩

theorem tracks_taking {result : Except Defect α} :
    Tracks t₁ t₂ Eq (taking result) (taking result) := by
  cases result with
  | ok value => exact tracks_pure rfl
  | error defect => exact tracks_fail

theorem tracks_closing {construct : Construct} {name : String} {line line' : Nat}
    {result : Except Defect α} :
    Tracks t₁ t₂ Eq (closing construct name line result) (closing construct name line' result) := by
  cases result with
  | ok value => exact tracks_pure rfl
  | error defect => exact tracks_of_still fun p₁ p₂ _ => .inr ⟨_, _, p₁, p₂, rfl, rfl, rfl⟩

theorem tracks_look {view : Token.Stream → α}
    (h : ∀ s₁ s₂, Abreast t₁ t₂ s₁ s₂ → view s₂ = view s₁) :
    Tracks t₁ t₂ Eq (look view) (look view) where
  shrinks :=
    { ok := fun hp hrun => by
        cases hrun
        exact ⟨hp, Nat.le_refl _⟩
      error := fun _ hrun => by cases hrun }
  follows {p₁ p₂ q₁ a} hp hrun _ := by
    cases hrun
    exact ⟨_, p₂, rfl, (h _ _ hp.stream).symm, hp⟩
  fails _ hrun _ := by cases hrun

theorem tracks_onStream {step : Token.Stream → α × Token.Stream}
    (hle : ∀ s, s.Sound → (step s).2.Sound ∧ (step s).2.left.length ≤ s.left.length)
    (h : ∀ s₁ s₂, Abreast t₁ t₂ s₁ s₂ → t₁.length ≤ (step s₁).2.left.length →
      R (step s₁).1 (step s₂).1 ∧ Abreast t₁ t₂ (step s₁).2 (step s₂).2) :
    Tracks t₁ t₂ R (onStream step) (onStream step) where
  shrinks :=
    { ok := fun {p q a} hp hrun => by
        cases hrun
        exact hle p.stream hp
      error := fun _ hrun => by cases hrun }
  follows {p₁ p₂ q₁ a} hp hrun hlength := by
    cases hrun
    obtain ⟨hR, habreast⟩ := h p₁.stream p₂.stream hp.stream hlength
    exact ⟨_, _, rfl, hR, habreast, hp.session⟩
  fails _ hrun _ := by cases hrun

end Steps

/-! ## Tokens -/

section Tokens
variable {R : α → α → Prop}

/-- How two readers go on once each has read the same word. -/
inductive Onward (t₁ t₂ : List Char) (R : α → α → Prop) (token token' : Token)
    (m₁ m₂ : Reading α) : Prop
  | ahead (h : Tracks t₁ t₂ R m₁ m₂)
  | back {a b : α} (h : R a b) (h₁ : m₁ = handBack token >>= fun _ => pure a)
      (h₂ : m₂ = handBack token' >>= fun _ => pure b)
  | drop {n₁ n₂ : Reading α} (h : Tracks t₁ t₂ R n₁ n₂) (h₁ : m₁ = dropLine >>= fun _ => n₁)
      (h₂ : m₂ = dropLine >>= fun _ => n₂)

variable {token token' : Token} {m₁ m₂ : Reading α} {c : Cursor} {word rest : List Char}

/-- Behind a token that was handed back, the text is left from its start. -/
theorem handBack_run (a : α) {p : Progress} {line : Nat} (hc : c.Stands word rest)
    (hstream : p.stream = behind c line) :
    ∃ s, (handBack (Token.ofCursor c) >>= fun _ => pure a) p = .ok a { p with stream := s } ∧
      s.Sound ∧ s.left = word ++ rest := by
  obtain ⟨s, hback, hs⟩ := Token.Stream.handBack_left hc line
  refine ⟨s, bind_ok.mpr ⟨(), { p with stream := s }, ?_, rfl⟩, hs⟩
  rw [handBack, hstream, hback]

/-- Whoever goes on behind a token leaves no more than there is from its start. -/
theorem Onward.shrinks (h : Onward t₁ t₂ R (Token.ofCursor c) token' m₁ m₂)
    (hc : c.Stands word rest) {p q : Progress} {a : α} {line : Nat}
    (hstream : p.stream = behind c line) (hrun : m₁ p = .ok a q) :
    q.stream.Sound ∧ q.stream.left.length ≤ (word ++ rest).length := by
  obtain ⟨hsound, hleft⟩ := Token.Stream.behind_left hc line
  cases h with
  | ahead h =>
    obtain ⟨hq, hle⟩ := h.shrinks.ok (by rwa [hstream]) hrun
    rw [hstream, hleft] at hle
    exact ⟨hq, hle.trans (by simp)⟩
  | @back x y h h₁ h₂ =>
    subst h₁
    obtain ⟨s, hback, hs, hleft⟩ := handBack_run x hc hstream
    cases hrun.symm.trans hback
    exact ⟨hs, hleft ▸ Nat.le_refl _⟩
  | drop h h₁ h₂ =>
    subst h₁
    obtain ⟨u, r, hr, hrun⟩ := bind_ok.mp hrun
    cases hr
    obtain ⟨hdrop, hline⟩ := Token.Stream.dropLine_left hc line
    obtain ⟨hq, hle⟩ := h.shrinks.ok (by rwa [hstream]) hrun
    refine ⟨hq, hle.trans ?_⟩
    have hbelow := Token.length_belowLine_le rest
    rw [hstream]
    dsimp only
    rw [hline, List.length_append]
    omega

theorem Onward.shrinks_error (h : Onward t₁ t₂ R (Token.ofCursor c) token' m₁ m₂)
    (hc : c.Stands word rest) {p q : Progress} {failure : Failure} {line : Nat}
    (hstream : p.stream = behind c line) (hrun : m₁ p = .error failure q) :
    q.stream.left.length ≤ (word ++ rest).length := by
  obtain ⟨hsound, hleft⟩ := Token.Stream.behind_left hc line
  cases h with
  | ahead h =>
    have hle := h.shrinks.error (by rwa [hstream]) hrun
    rw [hstream, hleft] at hle
    exact hle.trans (by simp)
  | @back x y h h₁ h₂ =>
    subst h₁
    obtain ⟨s, hback, -⟩ := handBack_run x hc hstream
    cases hrun.symm.trans hback
  | drop h h₁ h₂ =>
    subst h₁
    obtain ⟨hdrop, hline⟩ := Token.Stream.dropLine_left hc line
    rcases bind_error.mp hrun with hr | ⟨u, r, hr, hrun⟩
    · cases hr
    cases hr
    refine (h.shrinks.error (by rwa [hstream]) hrun).trans ?_
    have hbelow := Token.length_belowLine_le rest
    rw [hstream]
    dsimp only
    rw [hline, List.length_append]
    omega

variable {c₁ c₂ : Cursor} {rest₁ rest₂ : List Char} {line₁ line₂ : Nat} {p₁ p₂ q₁ : Progress}

/-- Behind the same word, two readers are paired. -/
theorem paired_behind (hc₁ : c₁.Stands word rest₁) (hc₂ : c₂.Stands word rest₂)
    (htied : Tied t₁ t₂ (word ++ rest₁) (word ++ rest₂)) (hstream₁ : p₁.stream = behind c₁ line₁)
    (hstream₂ : p₂.stream = behind c₂ line₂) (hsession : p₂.session = p₁.session)
    (hlength : t₁.length ≤ p₁.stream.left.length) : Paired t₁ t₂ p₁ p₂ := by
  rw [hstream₁, (Token.Stream.behind_left hc₁ line₁).2] at hlength
  refine ⟨?_, hsession⟩
  rw [hstream₁, hstream₂]
  exact Abreast.behind hc₁ hc₂ htied line₁ line₂ hlength

/-- So they are below the line. -/
theorem paired_dropLine (hc₁ : c₁.Stands word rest₁) (hc₂ : c₂.Stands word rest₂)
    (htied : Tied t₁ t₂ (word ++ rest₁) (word ++ rest₂)) (hstream₁ : p₁.stream = behind c₁ line₁)
    (hstream₂ : p₂.stream = behind c₂ line₂) (hsession : p₂.session = p₁.session)
    (hlength : t₁.length ≤ p₁.stream.dropLine.left.length) :
    Paired t₁ t₂ { p₁ with stream := p₁.stream.dropLine }
      { p₂ with stream := p₂.stream.dropLine } := by
  obtain ⟨hdrop₁, hline₁⟩ := Token.Stream.dropLine_left hc₁ line₁
  obtain ⟨hdrop₂, hline₂⟩ := Token.Stream.dropLine_left hc₂ line₂
  rw [hstream₁, hline₁] at hlength
  refine ⟨?_, hsession⟩
  rw [hstream₁, hstream₂]
  refine ⟨hdrop₁, hdrop₂, ?_⟩
  rw [hline₁, hline₂]
  exact (htied.cancel (hlength.trans (Token.length_belowLine_le rest₁))).line hlength hc₁.newline_mem

theorem Onward.follows (h : Onward t₁ t₂ R (Token.ofCursor c₁) (Token.ofCursor c₂) m₁ m₂)
    (hc₁ : c₁.Stands word rest₁) (hc₂ : c₂.Stands word rest₂)
    (htied : Tied t₁ t₂ (word ++ rest₁) (word ++ rest₂)) {a : α}
    (hstream₁ : p₁.stream = behind c₁ line₁) (hstream₂ : p₂.stream = behind c₂ line₂)
    (hsession : p₂.session = p₁.session) (hrun : m₁ p₁ = .ok a q₁)
    (hlength : t₁.length ≤ q₁.stream.left.length) :
    ∃ b q₂, m₂ p₂ = .ok b q₂ ∧ R a b ∧ Paired t₁ t₂ q₁ q₂ := by
  have hsound : p₁.stream.Sound := hstream₁ ▸ (Token.Stream.behind_left hc₁ line₁).1
  cases h with
  | ahead h =>
    have hle := (h.shrinks.ok hsound hrun).2
    exact h.follows (paired_behind hc₁ hc₂ htied hstream₁ hstream₂ hsession (hlength.trans hle))
      hrun hlength
  | @back x y h h₁ h₂ =>
    subst h₁ h₂
    obtain ⟨s₁, hback₁, hs₁, hleft₁⟩ := handBack_run x hc₁ hstream₁
    obtain ⟨s₂, hback₂, hs₂, hleft₂⟩ := handBack_run y hc₂ hstream₂
    cases hrun.symm.trans hback₁
    exact ⟨y, _, hback₂, h, ⟨hs₁, hs₂, by rw [hleft₁, hleft₂]; exact htied⟩, hsession⟩
  | @drop n₁ n₂ h h₁ h₂ =>
    subst h₁ h₂
    obtain ⟨u, r, hr, hrun⟩ := bind_ok.mp hrun
    cases hr
    have hdrop : p₁.stream.dropLine.Sound := hstream₁ ▸ (Token.Stream.dropLine_left hc₁ line₁).1
    have hle := (h.shrinks.ok hdrop hrun).2
    have hpaired := paired_dropLine hc₁ hc₂ htied hstream₁ hstream₂ hsession (hlength.trans hle)
    obtain ⟨b, q₂, hrun₂, hR, hq⟩ := h.follows hpaired hrun hlength
    exact ⟨b, q₂, bind_ok.mpr ⟨(), _, rfl, hrun₂⟩, hR, hq⟩

theorem Onward.fails (h : Onward t₁ t₂ R (Token.ofCursor c₁) (Token.ofCursor c₂) m₁ m₂)
    (hc₁ : c₁.Stands word rest₁) (hc₂ : c₂.Stands word rest₂)
    (htied : Tied t₁ t₂ (word ++ rest₁) (word ++ rest₂)) {failure : Failure}
    (hstream₁ : p₁.stream = behind c₁ line₁) (hstream₂ : p₂.stream = behind c₂ line₂)
    (hsession : p₂.session = p₁.session) (hrun : m₁ p₁ = .error failure q₁)
    (hlength : t₁.length ≤ q₁.stream.left.length) :
    ∃ failure' q₂, m₂ p₂ = .error failure' q₂ := by
  have hsound : p₁.stream.Sound := hstream₁ ▸ (Token.Stream.behind_left hc₁ line₁).1
  cases h with
  | ahead h =>
    have hle := h.shrinks.error hsound hrun
    exact h.fails (paired_behind hc₁ hc₂ htied hstream₁ hstream₂ hsession (hlength.trans hle))
      hrun hlength
  | @back x y h h₁ h₂ =>
    subst h₁
    obtain ⟨s₁, hback₁, -⟩ := handBack_run x hc₁ hstream₁
    cases hrun.symm.trans hback₁
  | @drop n₁ n₂ h h₁ h₂ =>
    subst h₁ h₂
    rcases bind_error.mp hrun with hr | ⟨u, r, hr, hrun⟩
    · cases hr
    cases hr
    have hdrop : p₁.stream.dropLine.Sound := hstream₁ ▸ (Token.Stream.dropLine_left hc₁ line₁).1
    have hle := h.shrinks.error hdrop hrun
    have hpaired := paired_dropLine hc₁ hc₂ htied hstream₁ hstream₂ hsession (hlength.trans hle)
    obtain ⟨failure', q₂, hrun₂⟩ := h.fails hpaired hrun hlength
    exact ⟨failure', q₂, bind_error.mpr (.inr ⟨(), _, rfl, hrun₂⟩)⟩

/-- What follows a token. -/
theorem token?_bind {f : Option Token → Reading α} {p : Progress} {found : Option Token}
    {s : Token.Stream} (hnext : p.stream.next = (found, s)) :
    (token? >>= f) p = f found { p with stream := s } := by
  show f p.stream.next.1 { p with stream := p.stream.next.2 } = _
  rw [hnext]

/-- **Two readers that read a token go on from the same word.** -/
theorem tracks_token? (hends : Indistinct t₁ t₂) {f g : Option Token → Reading α}
    (hnone : Tracks t₁ t₂ R (f none) (g none))
    (hsome : ∀ token token' : Token, token'.text = token.text →
      Onward t₁ t₂ R token token' (f (some token)) (g (some token'))) :
    Tracks t₁ t₂ R (token? >>= f) (token? >>= g) where
  shrinks :=
    { ok := fun {p q a} hp hrun => by
        rcases hp.next with ⟨-, s, hs, hsound, hnil⟩ | ⟨word, rest, c, line, hleads, hc, hs⟩
        · rw [token?_bind hs] at hrun
          obtain ⟨hq, hle⟩ := hnone.shrinks.ok hsound hrun
          rw [hnil] at hle
          exact ⟨hq, hle.trans (Nat.zero_le _)⟩
        · rw [token?_bind hs] at hrun
          obtain ⟨hq, hle⟩ := (hsome _ _ rfl).shrinks hc rfl hrun
          exact ⟨hq, hle.trans hleads.length_le⟩
      error := fun {p q failure} hp hrun => by
        rcases hp.next with ⟨-, s, hs, hsound, hnil⟩ | ⟨word, rest, c, line, hleads, hc, hs⟩
        · rw [token?_bind hs] at hrun
          have hle := hnone.shrinks.error hsound hrun
          rw [hnil] at hle
          exact hle.trans (Nat.zero_le _)
        · rw [token?_bind hs] at hrun
          exact ((hsome _ _ rfl).shrinks_error hc rfl hrun).trans hleads.length_le }
  follows {p₁ p₂ q₁ a} hp hrun hlength := by
    rcases hp.stream.left.next with
      ⟨-, s₁, hs₁, hsound, hnil⟩ | ⟨word, rest₁, c₁, line₁, hleads, hc₁, hs₁⟩
    · rw [token?_bind hs₁] at hrun
      have hle := (hnone.shrinks.ok hsound hrun).2
      obtain ⟨s₂, hs₂, habreast⟩ := hp.stream.next_none hends hs₁ (hlength.trans hle)
      have hpaired : Paired t₁ t₂ { p₁ with stream := s₁ } { p₂ with stream := s₂ } :=
        ⟨habreast, hp.session⟩
      rw [token?_bind hs₂]
      exact hnone.follows hpaired hrun hlength
    · rw [token?_bind hs₁] at hrun
      have hle := ((hsome _ _ rfl).shrinks hc₁ rfl hrun).2
      obtain ⟨c₂, rest₂, line₂, hs₂, hc₂, htied⟩ := hp.stream.next hends hleads (hlength.trans hle)
      have hstream₁ : Progress.stream { p₁ with stream := behind c₁ line₁ } = behind c₁ line₁ := rfl
      have hstream₂ : Progress.stream { p₂ with stream := behind c₂ line₂ } = behind c₂ line₂ := rfl
      rw [token?_bind hs₂]
      exact (hsome _ _ (hc₂.text.trans hc₁.text.symm)).follows hc₁ hc₂ htied hstream₁ hstream₂
        hp.session hrun hlength
  fails {p₁ p₂ q₁ failure} hp hrun hlength := by
    rcases hp.stream.left.next with
      ⟨-, s₁, hs₁, hsound, hnil⟩ | ⟨word, rest₁, c₁, line₁, hleads, hc₁, hs₁⟩
    · rw [token?_bind hs₁] at hrun
      have hle := hnone.shrinks.error hsound hrun
      obtain ⟨s₂, hs₂, habreast⟩ := hp.stream.next_none hends hs₁ (hlength.trans hle)
      have hpaired : Paired t₁ t₂ { p₁ with stream := s₁ } { p₂ with stream := s₂ } :=
        ⟨habreast, hp.session⟩
      rw [token?_bind hs₂]
      exact hnone.fails hpaired hrun hlength
    · rw [token?_bind hs₁] at hrun
      have hle := (hsome _ _ rfl).shrinks_error hc₁ rfl hrun
      obtain ⟨c₂, rest₂, line₂, hs₂, hc₂, htied⟩ := hp.stream.next hends hleads (hlength.trans hle)
      have hstream₁ : Progress.stream { p₁ with stream := behind c₁ line₁ } = behind c₁ line₁ := rfl
      have hstream₂ : Progress.stream { p₂ with stream := behind c₂ line₂ } = behind c₂ line₂ := rfl
      rw [token?_bind hs₂]
      exact (hsome _ _ (hc₂.text.trans hc₁.text.symm)).fails hc₁ hc₂ htied hstream₁ hstream₂
        hp.session hrun hlength

end Tokens
end Reading
end DeviceSchema.Statement
