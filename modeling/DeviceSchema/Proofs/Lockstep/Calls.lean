import DeviceSchema.Proofs.Construction.Attribution
import DeviceSchema.Proofs.Construction.Termination
import DeviceSchema.Proofs.Lockstep.Statements

/-! # Calls of two sources

Two sources with the same beginning make the same calls there, up to a call at which they start
to differ (`CallOf.paired`).  If what that call does comes to the same in both sources, with the
same text left behind it, then so do the calls around it, and both sources are read to the same
end (`Site.carries_of_steps`, `CallOf.carries`).  If reading one of them fails before it comes to
where they differ, so does reading the other (`read_fails`).

The bound of a call is above what is unread, so it does not end loops in it (`CallOf.rank_lt`).
-/
namespace DeviceSchema.Statement
open Token (Indistinct Stream)

namespace Reading
variable {κ σ : Type} {t₁ t₂ : List Char} {loop loop' : Loop κ σ} {bound : Nat} {state : σ}
variable {p p' q : Progress} {site site' below : Site}

/-- The loops do the same, from whatever texts. -/
def Loop.Resembles (loop loop' : Loop κ σ) : Prop :=
  ∀ ⦃t₁ t₂ : List Char⦄, Indistinct t₁ t₂ → Loop.Tracks t₁ t₂ loop loop'

/-- The same call with paired progress. -/
structure Site.Paired (t₁ t₂ : List Char) (site site' : Site) : Prop where
  call : site'.call = site.call
  bound : site'.bound = site.bound
  progress : Statement.Paired t₁ t₂ site.progress site'.progress

/-- Wherever a paired reader makes the same call, it comes to the same value and the same text
that is left. -/
def Site.Carries [PatternCompiler] (t₁ t₂ : List Char) (site : Site) : Prop :=
  ∀ ⦃p' a q⦄, Statement.Paired t₁ t₂ site.progress p' →
    site.call.run site.bound site.progress = .ok a q →
    ∃ q', site.call.run site.bound p' = .ok a q' ∧ Statement.Paired [] [] q q'

theorem listLoop_resembles {place place' : ListPlace} (h : ListPlace.Alike place place') :
    (listLoop place).Resembles (listLoop place') := fun _ _ hends => listLoop_tracks hends h

theorem groupLoop_resembles {place place' : GroupPlace} (h : place'.here = place.here) :
    (groupLoop place).Resembles (groupLoop place') := fun _ _ hends => groupLoop_tracks hends h

theorem statementLoop_resembles : statementLoop.Resembles statementLoop :=
  fun _ _ hends => statementLoop_tracks hends

/-! ## Calls leave less -/

section Shrinking

/-- What reading a token gives. -/
theorem token?_eq {found : Option Token} (htoken : token? p = .ok found q) :
    p.stream.next.1 = found ∧ q = { p with stream := p.stream.next.2 } := by
  have hread : token? p = .ok p.stream.next.1 { p with stream := p.stream.next.2 } := rfl
  obtain ⟨hfound, hq⟩ := EStateM.Result.ok.inj (hread.symm.trans htoken)
  exact ⟨hfound, hq.symm⟩

theorem Loop.Makes.shrinks [PatternCompiler] (hloop : loop.Resembles loop)
    (h : loop.Makes bound state p site) (hp : p.stream.Sound) :
    site.progress.stream.Sound ∧ site.progress.stream.left.length ≤ p.stream.left.length := by
  have hends : Indistinct [] [] := Token.indistinct_refl []
  induction h with
  | now htoken hlead hcall =>
    obtain ⟨-, rfl⟩ := token?_eq htoken
    exact hp.next_le
  | later hturn h ih =>
    obtain ⟨hq, hle⟩ := ((hloop hends).turn hends (callsTrack hends _) _).shrinks.ok hp hturn
    obtain ⟨hsound, hle'⟩ := ih hq
    exact ⟨hsound, hle'.trans hle⟩

theorem Site.Makes.shrinks [PatternCompiler] (h : site.Makes below)
    (hp : site.progress.stream.Sound) :
    below.progress.stream.Sound ∧
      below.progress.stream.left.length ≤ site.progress.stream.left.length := by
  have hends : Indistinct [] [] := Token.indistinct_refl []
  cases h with
  | group hopen h =>
    obtain ⟨hq, hle⟩ := (tracks_openGroup hends).shrinks.ok hp hopen
    obtain ⟨hsound, hle'⟩ := h.shrinks (groupLoop_resembles rfl) hq
    exact ⟨hsound, hle'.trans hle⟩
  | list hopen h =>
    obtain ⟨hq, hle⟩ := (tracks_openList hends).shrinks.ok hp hopen
    obtain ⟨hsound, hle'⟩ := h.shrinks (listLoop_resembles ⟨rfl, rfl⟩) hq
    exact ⟨hsound, hle'.trans hle⟩

end Shrinking

/-! ## Bounds of calls -/

section Bounds
variable [PatternCompiler]

theorem Loop.Makes.rank_lt (h : loop.Makes bound state p site) (hloop : loop.Orderly)
    (hp : p.stream.unread < bound) : site.progress.stream.rank < site.bound := by
  induction h with
  | now htoken hlead hcall =>
    have hlt := unread_lt_of_rank_le htoken (fun hempty => ?_) (Nat.le_refl _)
    · rw [Token.Stream.rank_eq_unread (handedBack_token htoken)]
      exact hlt.trans_le (Nat.le_of_lt_succ hp)
    · rw [ofToken_of_empty hloop.keywords hempty] at hlead
      cases hlead
  | later hturn h ih =>
    have hlt := hloop.turn_lt hturn
    exact ih (by omega)

theorem Site.Makes.rank_lt (h : site.Makes below)
    (hsite : site.progress.stream.rank < site.bound) :
    below.progress.stream.rank < below.bound := by
  cases h with
  | @group keyword bound p q place g site hopen h =>
    have hle := orderly_openGroup.rank_ok hopen
    exact h.rank_lt (groupLoop_orderly place) ((q.stream.unread_le_rank.trans hle).trans_lt hsite)
  | @list keyword access parent outer bound p q place d site hopen h =>
    have hle := orderly_openList.rank_ok hopen
    exact h.rank_lt (listLoop_orderly place) ((q.stream.unread_le_rank.trans hle).trans_lt hsite)

end Bounds

/-! ## The same calls -/

section Pairing

/-- A step tracks another if what comes behind it does not leave too little. -/
theorem Tracks.follows_of {α : Type} {R : α → α → Prop} {m₁ m₂ : Reading α} {a : α}
    (h : Tracks t₁ t₂ R m₁ m₂) (hp : Statement.Paired t₁ t₂ p p') (hrun : m₁ p = .ok a q)
    (hlength : q.stream.Sound → t₁.length ≤ q.stream.left.length) :
    ∃ b q', m₂ p' = .ok b q' ∧ R a b ∧ Statement.Paired t₁ t₂ q q' :=
  h.follows hp hrun (hlength (h.shrinks.ok hp.stream.left hrun).1)

theorem token?_paired (hends : Indistinct t₁ t₂) {token : Token}
    (hp : Statement.Paired t₁ t₂ p p') (htoken : token? p = .ok (some token) q)
    (hlength : t₁.length ≤ q.stream.left.length) :
    ∃ token' q', token? p' = .ok (some token') q' ∧ token'.text = token.text ∧
      Statement.Paired t₁ t₂ q q' := by
  obtain ⟨hfound, rfl⟩ := token?_eq htoken
  obtain ⟨htext, habreast⟩ := hp.stream.next_same hends hlength
  rw [hfound, Option.map_some] at htext
  obtain ⟨token', htoken', hword⟩ := Option.map_eq_some_iff.mp htext
  refine ⟨token', { p' with stream := p'.stream.next.2 }, ?_, hword, habreast, hp.session⟩
  rw [← htoken']
  rfl

theorem Clause.Tracks.of_calling {clause : Clause σ} {call : Call}
    {rest : call.Result → Reading (Turn σ)} (h : Clause.Tracks t₁ t₂ (.calling call rest) clause) :
    ∃ rest', clause = .calling call rest' ∧
      ∀ result, Reading.Tracks t₁ t₂ Eq (rest result) (rest' result) := by
  cases h with
  | calling h => exact ⟨_, rfl, h⟩

/-- A paired reader makes the same call in the loop. -/
theorem Loop.Makes.paired [PatternCompiler] (hends : Indistinct t₁ t₂) (hloop : loop.Resembles loop)
    (hloop' : loop.Resembles loop') (h : loop.Makes bound state p site)
    (hp : Statement.Paired t₁ t₂ p p')
    (hlength : t₁.length ≤ site.progress.stream.left.length) :
    ∃ site', loop'.Makes bound state p' site' ∧ site.Paired t₁ t₂ site' := by
  induction h generalizing p' with
  | now htoken hlead hcall =>
    obtain ⟨token', q', htoken', htext, hq⟩ := token?_paired hends hp htoken hlength
    have hclause := (hloop' hends).clause
    rw [← ofToken_congr htext, ← (hloop' hends).keywords] at hlead
    obtain ⟨rest', hcall', -⟩ := Clause.Tracks.of_calling (hcall ▸ hclause _ _)
    exact ⟨_, .now htoken' hlead hcall', rfl, rfl, hq⟩
  | @later bound state _ _ _ _ hturn h ih =>
    have hturns := (hloop' hends).turn hends (callsTrack hends bound)
    obtain ⟨turn, q', hturn', rfl, hpaired⟩ :=
      (hturns _).follows_of hp hturn fun hq => hlength.trans (h.shrinks hloop hq).2
    obtain ⟨site', hmakes, hsite⟩ := ih hpaired hlength
    exact ⟨site', .later hturn' hmakes, hsite⟩

/-- A paired call makes the same calls. -/
theorem Site.Makes.paired [PatternCompiler] (hends : Indistinct t₁ t₂) (h : site.Makes below)
    (hsite : site.Paired t₁ t₂ site') (hlength : t₁.length ≤ below.progress.stream.left.length) :
    ∃ below', site'.Makes below' ∧ below.Paired t₁ t₂ below' := by
  obtain ⟨keyword', call', bound', p'⟩ := site'
  obtain ⟨hcall, hbound, hp⟩ := hsite
  cases h with
  | group hopen h =>
    cases hcall
    cases hbound
    obtain ⟨⟨place', g'⟩, q', hopen', ⟨hplace, rfl⟩, hpaired⟩ :=
      (tracks_openGroup hends).follows_of hp hopen fun hq =>
        hlength.trans (h.shrinks (groupLoop_resembles rfl) hq).2
    obtain ⟨below', hmakes, hbelow⟩ := h.paired hends (groupLoop_resembles rfl)
      (groupLoop_resembles hplace) hpaired hlength
    exact ⟨below', .group hopen' hmakes, hbelow⟩
  | list hopen h =>
    cases hcall
    cases hbound
    obtain ⟨⟨place', d'⟩, q', hopen', ⟨hplace, rfl⟩, hpaired⟩ :=
      (tracks_openList hends).follows_of hp hopen fun hq =>
        hlength.trans (h.shrinks (listLoop_resembles ⟨rfl, rfl⟩) hq).2
    obtain ⟨below', hmakes, hbelow⟩ := h.paired hends (listLoop_resembles ⟨rfl, rfl⟩)
      (listLoop_resembles hplace) hpaired hlength
    exact ⟨below', .list hopen' hmakes, hbelow⟩

end Pairing

/-! ## The same outcome -/

section Carrying

theorem Tracks.same {α : Type} {R : α → α → Prop} {m₁ m₂ : Reading α} {a : α}
    (h : Tracks [] [] R m₁ m₂) (hp : Statement.Paired [] [] p p') (hrun : m₁ p = .ok a q) :
    ∃ b q', m₂ p' = .ok b q' ∧ R a b ∧ Statement.Paired [] [] q q' :=
  h.follows hp hrun (Nat.zero_le _)

variable [PatternCompiler]

/-- What follows a turn comes to the same if the turn did. -/
theorem Loop.Resembles.rest (hloop : loop.Resembles loop') {turn : Turn σ} {state' : σ}
    (hp : Statement.Paired [] [] p p') (hrun : turn.andThen (loop.run bound) p = .ok state' q) :
    ∃ q', turn.andThen (loop'.run bound) p' = .ok state' q' ∧ Statement.Paired [] [] q q' := by
  have hends : Indistinct [] [] := Token.indistinct_refl []
  have hruns : ∀ state, Reading.Tracks [] [] Eq (loop.run bound state) (loop'.run bound state) :=
    (hloop hends).run hends fun n _ => callsTrack hends n
  have htracks := tracks_andThen hruns turn
  obtain ⟨state'', q', hrun', rfl, hq⟩ := htracks.same hp hrun
  exact ⟨q', hrun', hq⟩

/-- A loop comes to the same if a call in it does. -/
theorem Loop.Makes.carries (hends : Indistinct t₁ t₂) (hloop : loop.Resembles loop)
    (hloop' : loop.Resembles loop') (h : loop.Makes bound state p site)
    (hp : Statement.Paired t₁ t₂ p p')
    (hlength : t₁.length ≤ site.progress.stream.left.length) (hsite : site.Carries t₁ t₂)
    {state' : σ} (hrun : loop.run bound state p = .ok state' q) :
    ∃ q', loop'.run bound state p' = .ok state' q' ∧ Statement.Paired [] [] q q' := by
  induction h generalizing p' with
  | @now bound state p r token kind call rest htoken hlead hcall =>
    obtain ⟨token', r', htoken', htext, hr⟩ := token?_paired hends hp htoken hlength
    have hsame : Indistinct [] [] := Token.indistinct_refl []
    obtain ⟨rest', hcall', hrest⟩ := Clause.Tracks.of_calling (hcall ▸ (hloop' hsame).clause _ _)
    obtain ⟨turn, r₂, hturn, hrun⟩ := bind_ok.mp hrun
    rw [Loop.turn_of_clause htoken hlead, hcall] at hturn
    obtain ⟨result, r₁, hresult, hturn⟩ := bind_ok.mp hturn
    obtain ⟨r₁', hresult', hr₁⟩ := hsite hr hresult
    obtain ⟨turn', r₂', hturn', rfl, hr₂⟩ := (hrest result).same hr₁ hturn
    obtain ⟨q', hrun', hq⟩ := hloop'.rest hr₂ hrun
    have hlead' : Lead.ofToken loop'.keywords token' = .clause kind := by
      rw [ofToken_congr htext, (hloop' hsame).keywords, hlead]
    refine ⟨q', bind_ok.mpr ⟨turn, r₂', ?_, hrun'⟩, hq⟩
    rw [Loop.turn_of_clause htoken' hlead', hcall']
    exact bind_ok.mpr ⟨result, r₁', hresult', hturn'⟩
  | @later bound state _ _ _ _ hturn h ih =>
    have hturns := (hloop' hends).turn hends (callsTrack hends bound)
    obtain ⟨turn, r', hturn', rfl, hpaired⟩ :=
      (hturns _).follows_of hp hturn fun hq => hlength.trans (h.shrinks hloop hq).2
    rw [Loop.run_of_more hturn] at hrun
    obtain ⟨q', hrun', hq'⟩ := ih hpaired hlength hsite hrun
    exact ⟨q', (Loop.run_of_more hturn').trans hrun', hq'⟩

/-- **A call comes to the same if a call in it does.** -/
theorem Site.Makes.carries (hends : Indistinct t₁ t₂) (h : site.Makes below)
    (hlength : t₁.length ≤ below.progress.stream.left.length) (hbelow : below.Carries t₁ t₂) :
    site.Carries t₁ t₂ := by
  intro p' a q hp hrun
  cases h with
  | group hopen h =>
    obtain ⟨⟨place', g'⟩, r', hopen', ⟨hplace, rfl⟩, hpaired⟩ :=
      (tracks_openGroup hends).follows_of hp hopen fun hq =>
        hlength.trans (h.shrinks (groupLoop_resembles rfl) hq).2
    have hrun' := (bind_at hopen).symm.trans hrun
    obtain ⟨g₁, r₁, hclauses, hclose⟩ := bind_ok.mp hrun'
    rw [groupClauses_eq] at hclauses
    obtain ⟨r₁', hclauses', hr₁⟩ := h.carries hends (groupLoop_resembles rfl)
      (groupLoop_resembles hplace) hpaired hlength hbelow hclauses
    obtain ⟨u, q', hclose', -, hq'⟩ := (tracks_closeGroup hplace).same hr₁ hclose
    rw [← groupClauses_eq] at hclauses'
    exact ⟨q', bind_ok.mpr ⟨_, r', hopen', bind_ok.mpr ⟨_, r₁', hclauses', hclose'⟩⟩, hq'⟩
  | list hopen h =>
    obtain ⟨⟨place', d'⟩, r', hopen', ⟨hplace, rfl⟩, hpaired⟩ :=
      (tracks_openList hends).follows_of hp hopen fun hq =>
        hlength.trans (h.shrinks (listLoop_resembles ⟨rfl, rfl⟩) hq).2
    have hrun' := (bind_at hopen).symm.trans hrun
    obtain ⟨d₁, r₁, hclauses, hclose⟩ := bind_ok.mp hrun'
    rw [listClauses_eq] at hclauses
    obtain ⟨r₁', hclauses', hr₁⟩ := h.carries hends (listLoop_resembles ⟨rfl, rfl⟩)
      (listLoop_resembles hplace) hpaired hlength hbelow hclauses
    obtain ⟨c, q', hclose', rfl, hq'⟩ := tracks_closeList.same hr₁ hclose
    rw [← listClauses_eq] at hclauses'
    exact ⟨q', bind_ok.mpr ⟨_, r', hopen', bind_ok.mpr ⟨_, r₁', hclauses', hclose'⟩⟩, hq'⟩

/-- The calls on the way to a call leave no less than that one. -/
theorem Site.steps_shrink (h : Relation.ReflTransGen Site.Makes site below)
    (hp : site.progress.stream.Sound) :
    below.progress.stream.Sound ∧
      below.progress.stream.left.length ≤ site.progress.stream.left.length := by
  induction h with
  | refl => exact ⟨hp, Nat.le_refl _⟩
  | tail _ hmakes ih =>
    obtain ⟨hsound, hle⟩ := hmakes.shrinks ih.1
    exact ⟨hsound, hle.trans ih.2⟩

theorem Site.carries_of_steps (hends : Indistinct t₁ t₂)
    (h : Relation.ReflTransGen Site.Makes site below) (hp : site.progress.stream.Sound)
    (hlength : t₁.length ≤ below.progress.stream.left.length) (hbelow : below.Carries t₁ t₂) :
    site.Carries t₁ t₂ := by
  induction h using Relation.ReflTransGen.head_induction_on with
  | refl => exact hbelow
  | head hmakes hsteps ih =>
    have hsound := (hmakes.shrinks hp).1
    exact hmakes.carries hends (hlength.trans (Site.steps_shrink hsteps hsound).2) (ih hsound)

end Carrying
end Reading

/-! ## Sources -/

section Sources
open Reading

variable {t₁ t₂ : List Char} {stream stream' : Stream} {s s' : Session} {site : Site}

/-- The starts of two sources with the same session. -/
theorem paired_start (h : Stream.Abreast t₁ t₂ stream stream') :
    Paired t₁ t₂ (.start stream s) (.start stream' s) := ⟨h, rfl⟩

variable [PatternCompiler]

/-- **The bound of a call is above what is unread.** -/
theorem CallOf.rank_lt (h : CallOf stream s site) :
    site.progress.stream.rank < site.bound := by
  obtain ⟨first, hfirst, hsteps⟩ := h
  have hrank := hfirst.rank_lt statementLoop_orderly (Nat.lt_succ_self _)
  induction hsteps with
  | refl => exact hrank
  | tail _ hmakes ih => exact hmakes.rank_lt ih

/-- **Two sources with the same beginning make the same calls there.** -/
theorem CallOf.paired (hends : Indistinct t₁ t₂) (h : CallOf stream s site)
    (hstart : Stream.Abreast t₁ t₂ stream stream') (hunread : stream'.unread = stream.unread)
    (hlength : t₁.length ≤ site.progress.stream.left.length) :
    ∃ site', CallOf stream' s site' ∧ site.Paired t₁ t₂ site' := by
  obtain ⟨first, hfirst, hsteps⟩ := h
  have hsound := (hfirst.shrinks statementLoop_resembles hstart.left).1
  induction hsteps with
  | refl =>
    obtain ⟨site', hmakes, hsite⟩ := hfirst.paired hends statementLoop_resembles
      statementLoop_resembles (paired_start hstart) hlength
    exact ⟨site', ⟨site', hunread ▸ hmakes, .refl⟩, hsite⟩
  | tail hsteps hmakes ih =>
    have hle := hmakes.shrinks (Site.steps_shrink hsteps hsound).1
    obtain ⟨site', ⟨first', hfirst', hsteps'⟩, hsite⟩ := ih (hlength.trans hle.2)
    obtain ⟨below', hmakes', hbelow⟩ := hmakes.paired hends hsite hlength
    exact ⟨below', ⟨first', hfirst', hsteps'.tail hmakes'⟩, hbelow⟩

/-- **Two sources that differ in one call come to the same if that call does.** -/
theorem CallOf.carries (hends : Indistinct t₁ t₂) (h : CallOf stream s site)
    (hstart : Stream.Abreast t₁ t₂ stream stream') (hunread : stream'.unread = stream.unread)
    (hlength : t₁.length ≤ site.progress.stream.left.length) (hsite : site.Carries t₁ t₂)
    (hread : (read stream s).result = .ok () ∧ (read stream s).progress.session = s') :
    (read stream' s).result = .ok () ∧ (read stream' s).progress.session = s' := by
  obtain ⟨first, hfirst, hsteps⟩ := h
  have hsound := (hfirst.shrinks statementLoop_resembles hstart.left).1
  have hcarries := Site.carries_of_steps hends hsteps hsound hlength hsite
  obtain ⟨q, hq, hsession⟩ := read_result_iff.mp hread
  have hrun : statementLoop.run (stream.unread + 1) () (.start stream s) = .ok () q := by
    rw [← statements_eq]
    exact hq
  obtain ⟨q', hrun', hpaired⟩ := hfirst.carries hends statementLoop_resembles
    statementLoop_resembles (paired_start hstart)
    (hlength.trans (Site.steps_shrink hsteps hsound).2) hcarries hrun
  rw [← statements_eq, ← hunread] at hrun'
  exact read_result_iff.mpr ⟨q', hrun', hpaired.session.trans hsession⟩

/-- **Two sources with the same beginning fail alike there.** -/
theorem read_fails (hends : Indistinct t₁ t₂) (hstart : Stream.Abreast t₁ t₂ stream stream')
    (hunread : stream'.unread = stream.unread) {failure : Failure}
    (hread : (read stream s).result = .error failure)
    (hlength : t₁.length ≤ (read stream s).progress.stream.left.length) :
    ∃ failure', (read stream' s).result = .error failure' := by
  obtain ⟨q, hq⟩ := read_error_iff.mp hread
  have hleft : (read stream s).progress.stream = q.stream := by
    have hrun : readAll ⟨stream, s, #[.ofDebug "Starting syntax analysis"]⟩ = .error failure q := hq
    rw [read, hrun]
  rw [hleft] at hlength
  rw [statements_eq] at hq
  have htracks : Reading.Tracks t₁ t₂ Eq (statementLoop.run (stream.unread + 1) ())
      (statementLoop.run (stream.unread + 1) ()) :=
    (statementLoop_tracks hends).run hends (fun n _ => callsTrack hends n) ()
  obtain ⟨failure', q', hq'⟩ := htracks.fails (paired_start hstart) hq hlength
  rw [← statements_eq, ← hunread] at hq'
  exact ⟨failure', read_error_iff.mpr ⟨q', hq'⟩⟩

end Sources
end DeviceSchema.Statement
