import DeviceSchema.Proofs.Construction.Calls
import DeviceSchema.Proofs.Construction.WellFormed
import DeviceSchema.Proofs.Reading.Failing
import DeviceSchema.Text.Pattern

/-! # Whose failures they are

A failure of a source may name a construct.  Then it is this construct that failed: of the
calls that fail, the innermost one is for such a construct, the line of the failure is that of
its keyword, and the name, if the failure has one, is the token behind the keyword (or, in a
group, behind the word for the table).

A failure in a call comes from a call inside it or is made by the call itself
(`Site.Fails.inside_or_made`).  So it is followed from the statement down to the innermost call
that fails (`Site.Fails.innermost`), which made it.
-/
namespace DeviceSchema.Statement.Reading
open Token (Stream)

variable {α κ σ : Type} {own : Failure → Prop} {loop : Loop κ σ} {bound : Nat} {state : σ}
variable {p q : Progress} {site : Site} {failure : Failure}

/-! ## Failures of loops -/

section Loops

/-- All failures that are about no construct are among `own`. -/
def Plain (own : Failure → Prop) : Prop :=
  ∀ ⦃failure : Failure⦄, failure.construct = none → own failure

/-- The step fails only with what `own` holds of. -/
abbrev Blames (own : Failure → Prop) (m : Reading α) : Prop := FailsOnly (fun _ => True) own m

theorem Plain.compositional (h : Plain own) :
    Compositional own (fun _ => True) fun _ m => Blames own m :=
  Ground.compositional
    { line := fun _ _ => h rfl
      next := fun _ => ⟨trivial, fun _ _ => trivial⟩
      handBack := fun _ _ _ => trivial
      dropLine := fun _ => trivial
      quoted := fun _ => trivial
      expression := fun _ => trivial
      integer := fun _ => trivial }

/-- Apart from its call, a clause fails only with what `own` holds of. -/
def Clause.Blames (own : Failure → Prop) : Clause σ → Prop
  | plain turn => Reading.Blames own turn
  | calling _ rest => ∀ result, Reading.Blames own (rest result)

/-- Apart from its calls, a loop fails only with what `own` holds of. -/
structure Loop.Blames (loop : Loop κ σ) (own : Failure → Prop) : Prop where
  clause (state : σ) (kind : κ) : (loop.clause state kind).Blames own
  other (token : Token) (state : σ) : Reading.Blames own (loop.other token state)

theorem Clause.Blames.error [PatternCompiler] {clause : Clause σ} (h : clause.Blames own)
    (hread : clause.read bound p = .error failure q) :
    (∃ call rest, clause = .calling call rest ∧ call.run bound p = .error failure q) ∨
      own failure := by
  cases clause with
  | plain turn =>
    have hturn : Reading.Blames own turn := h
    exact .inr (hturn.error trivial hread)
  | calling call rest =>
    rcases bind_error.mp hread with hcall | ⟨result, p₁, -, hrest⟩
    · exact .inl ⟨call, rest, rfl, hcall⟩
    · exact .inr ((h result).error trivial hrest)

theorem Loop.Blames.turn_error [PatternCompiler] (h : loop.Blames own)
    (hturn : loop.turn bound state p = .error failure q) :
    (∃ site, loop.Makes (bound + 1) state p site ∧ site.Fails failure) ∨ own failure := by
  rcases bind_error.mp hturn with htoken | ⟨found, p₁, htoken, hread⟩
  · cases htoken
  cases found with
  | none => cases hread
  | some token =>
    dsimp only at hread
    cases hlead : Lead.ofToken loop.keywords token with
    | clause kind =>
      rw [hlead] at hread
      rcases (h.clause state kind).error hread with ⟨call, rest, hcall, hfails⟩ | hown
      · exact .inl ⟨⟨token, call, bound, p₁⟩, .now htoken hlead hcall, q, hfails⟩
      · exact .inr hown
    | comment =>
      rw [hlead] at hread
      cases hread
    | other =>
      rw [hlead] at hread
      rcases bind_error.mp hread with hother | ⟨state', p₂, -, hdone⟩
      · exact .inr ((h.other token state).error trivial hother)
      · cases hdone

/-- **A loop fails in a call or with a failure of its own.** -/
theorem Loop.Blames.error [PatternCompiler] (h : loop.Blames own)
    (hrun : loop.run bound state p = .error failure q) :
    (∃ site, loop.Makes bound state p site ∧ site.Fails failure) ∨ own failure := by
  induction bound generalizing state p with
  | zero => cases hrun
  | succ bound ih =>
    rcases bind_error.mp hrun with hturn | ⟨turn, p₁, hturn, hrest⟩
    · exact h.turn_error hturn
    · cases turn with
      | done state' => cases hrest
      | more state' =>
        -- This turn succeeded, so a call that fails is made in a later one.
        rcases ih hrest with ⟨site, hmakes, hfails⟩ | hown
        · exact .inl ⟨site, .later hturn hmakes, hfails⟩
        · exact .inr hown

/-- A list also fails as a whole, on its line. -/
theorem listLoop_blames (h : Plain own) (place : ListPlace)
    (hfail : ∀ cause, own { cause, line := place.opened, construct := some .list }) :
    (listLoop place).Blames own where
  clause d kind := by
    have hsteps := h.compositional
    cases kind with
    | capacity => exact hsteps.bind (hsteps.capacity hfail) fun _ => hsteps.pure _
    | keys => exact hsteps.bind (hsteps.keys hfail) fun _ => hsteps.pure _
    | access => exact hsteps.bind (hsteps.accessClause d) fun _ => hsteps.pure _
    | element | list =>
      exact fun _ => hsteps.bind (hsteps.adding _ _) fun _ => hsteps.pure _
    | condition => exact hsteps.bind (hsteps.attaching _ _) fun _ => hsteps.pure _
    | stop => exact hsteps.pure _
  other _ _ := h.compositional.failing (hfail _)

/-- A group also fails as a whole, on its line. -/
theorem groupLoop_blames (h : Plain own) (place : GroupPlace)
    (hfail : ∀ cause, own { cause, line := place.opened, construct := some .group }) :
    (groupLoop place).Blames own where
  clause g kind := by
    have hsteps := h.compositional
    cases kind with
    | capacity => exact hsteps.bind (hsteps.capacity hfail) fun _ => hsteps.pure _
    | keys => exact hsteps.bind (hsteps.keys hfail) fun _ => hsteps.pure _
    | condition => exact hsteps.bind (hsteps.attaching _ _) fun _ => hsteps.pure _
    | element | list =>
      exact fun _ => hsteps.bind (hsteps.adding _ _) fun _ => hsteps.pure _
    | error => exact hsteps.bind (hsteps.errorClause g) fun _ => hsteps.pure _
    | stop => exact hsteps.pure _
  other _ g := h.compositional.bind (h.compositional.handBack trivial)
    fun _ => h.compositional.pure g

theorem statementLoop_blames (h : Plain own) : statementLoop.Blames own where
  clause _ kind := by
    have hsteps := h.compositional
    cases kind with
    | globalError => exact hsteps.bind hsteps.globalError fun _ => hsteps.pure _
    | condition | group => exact fun _ => hsteps.pure _
  other _ _ := h.compositional.fail _

end Loops

/-! ## Openings -/

section Openings

theorem line_ends : Ends (fun opened q => opened = p.stream.line ∧ q = p) own (line p) :=
  ⟨rfl, rfl⟩

theorem token?_ends : Ends (fun found q => found = p.stream.next.1 ∧ q.stream = p.stream.next.2)
    own (token? p) := ⟨rfl, rfl⟩

theorem taking_ends (h : Plain own) {result : Except Defect α} :
    Ends (fun a _ => result = .ok a) own (taking result p) := by
  cases result with
  | ok value => exact rfl
  | error defect => exact h rfl

/-- A name is the next token. -/
theorem name_ends (h : Plain own) :
    Ends (fun name _ => ∃ token ∈ p.stream.next.1, token.text = name) own (name p) := by
  refine line_ends.bind fun before p₁ ⟨_, hp₁⟩ => token?_ends.bind fun found p₂ ⟨hfound, _⟩ => ?_
  subst hp₁
  cases found with
  | none => exact h rfl
  | some token =>
    show Ends _ own ((if p₂.session.limits.nameLength < token.text.length then
      fail (.nameTooLong p₂.session.limits.nameLength)
      else if !isName false token.text.toList then fail (.malformedName token.text)
      else pure token.text) p₂)
    split
    · exact h rfl
    · split
      · exact h rfl
      · exact ⟨token, hfound.symm, rfl⟩

/-- What follows a head that may have a count. -/
theorem head_ends (h : Plain own) {count : Option Int} {info : Info} {rest : Head → Reading α}
    {keeps : α → Progress → Prop}
    (hrest : ∀ head q, head.info = info → Ends keeps own (rest head q)) :
    Ends keeps own (headed count info rest p) := by
  cases count with
  | none => exact hrest _ _ rfl
  | some count =>
    refine (taking_ends h).bind fun head q hhead => hrest head q ?_
    obtain ⟨-, rfl⟩ := Head.declareInstances_ok_iff.mp (changed_ok.mp hhead)
    rfl

/-- What stands between the name of a collection and its clauses keeps the name. -/
theorem texts_ends (h : Plain own) {name : String} {count : Option Int}
    {change : Statistics → Statistics} {rest : Head → Reading α} {keeps : α → Progress → Prop}
    (hrest : ∀ head q, head.info.name = name → Ends keeps own (rest head q)) :
    Ends keeps own ((do
      let label ← label?
      let help ← help?
      let info ← taking (Info.ofItem name label help)
      note change
      headed count info rest : Reading α) p) := by
  refine (h.compositional.label? trivial).bind fun label p₁ _ =>
    (h.compositional.help? trivial).bind fun help p₂ _ =>
    (taking_ends h).bind fun info p₃ hinfo => (h.compositional.note _ trivial).bind fun _ p₄ _ =>
    head_ends h fun head q hhead => hrest head q ?_
  obtain ⟨-, text, -, rfl⟩ := Info.ofItem_ok hinfo
  rw [hhead]

/-- A list is opened on the line of the stream and under the name that is next. -/
theorem openList_ends (h : Plain own) (access : Access) (parent : Path) (outer : Nat)
    (hdeep : ∀ cause name, (∃ token ∈ p.stream.next.1, token.text = name) →
      own ⟨cause, p.stream.line, some .list, some name⟩) :
    Ends (fun opening _ => opening.1.opened = p.stream.line ∧
      ∃ token ∈ p.stream.next.1, token.text = opening.2.collection.name) own
      (openList access parent outer p) := by
  refine line_ends.bind fun opened p₁ ⟨hopened, hp₁⟩ => ?_
  subst hopened hp₁
  refine (name_ends h).bind fun name p₂ hname =>
    (h.compositional.instances? trivial).bind fun count p₃ _ => ?_
  dsimp only
  split
  · exact hdeep _ _ hname
  · refine (h.compositional.note _ trivial).bind fun _ p₄ _ => texts_ends h fun head q hhead => ?_
    exact ⟨rfl, hhead ▸ hname⟩

/-- A group is opened on the line of the stream and under the name that follows the word for
its table. -/
theorem openGroup_ends (h : Plain own) :
    Ends (fun opening _ => opening.1.opened = p.stream.line ∧
      ∃ token ∈ p.stream.next.2.next.1, token.text = opening.2.name) own (openGroup p) := by
  refine line_ends.bind fun opened p₁ ⟨hopened, hp₁⟩ => ?_
  subst hopened hp₁
  -- The word for the table stands between the keyword and the name.
  have hword : Ends (fun _ q => q.stream = p₁.stream.next.2) own (tokenText p₁) := rfl
  refine hword.bind fun word p₂ hp₂ => ?_
  cases TableKind.ofWord? word with
  | none => exact h rfl
  | some kind =>
    refine (name_ends h).bind fun name p₃ hname =>
      (h.compositional.instances? trivial).bind fun count p₄ _ => texts_ends h fun head q hhead => ?_
    rw [hp₂] at hname
    exact ⟨rfl, hhead ▸ hname⟩

end Openings

/-! ## Failures of calls -/

section Calls

/-- The token that stands where the construct is named. -/
def Site.nameToken? (site : Site) : Option Token :=
  match site.call with
  | .group => site.progress.stream.next.2.next.1
  | _ => site.progress.stream.next.1

/-- The failure is one of the construct, on the line behind its keyword, and if it has a name,
this is the name of the construct. -/
structure Site.Owns (site : Site) (failure : Failure) : Prop where
  construct : failure.construct = some site.call.construct
  line : failure.line = site.progress.stream.line
  name (name : String) (h : failure.name = some name) :
    ∃ token ∈ site.nameToken?, token.text = name

/-- The failure is about no construct, or the call made it. -/
def Site.Made (site : Site) (failure : Failure) : Prop :=
  failure.construct = none ∨ site.Owns failure

theorem Site.plain_made (site : Site) : Plain site.Made := fun _ => .inl

/-- A failure of the construct as a whole. -/
theorem Site.made_within (site : Site) (cause : Cause) :
    site.Made { cause, line := site.progress.stream.line, construct := site.call.construct } :=
  .inr ⟨rfl, rfl, nofun⟩

theorem Site.made_of_name (site : Site) (cause : Cause) {name : String}
    (h : ∃ token ∈ site.nameToken?, token.text = name) :
    site.Made ⟨cause, site.progress.stream.line, some site.call.construct, some name⟩ := by
  refine .inr ⟨rfl, rfl, ?_⟩
  rintro _ ⟨⟩
  exact h

variable {keyword : Token} {access : Access} {parent : Path} {outer : Nat}

theorem condition_made :
    Ends (fun _ _ => True) (Site.Made ⟨keyword, .condition, bound, p⟩) (condition bound p) := by
  have hplain := Site.plain_made ⟨keyword, .condition, bound, p⟩
  obtain ⟨rest, heq, hrest⟩ := hplain.compositional.condition_behind bound
  rw [heq]
  refine line_ends.bind fun opened p₁ ⟨hopened, hp₁⟩ => ?_
  subst hopened hp₁
  exact hrest _ (Site.made_within _) trivial

theorem element_made [PatternCompiler] :
    Ends (fun _ _ => True) (Site.Made ⟨keyword, .element access parent, bound, p⟩)
      (element bound access parent p) := by
  have hplain := Site.plain_made ⟨keyword, .element access parent, bound, p⟩
  obtain ⟨rest, heq, hrest⟩ := hplain.compositional.element_behind bound access parent
  rw [heq]
  refine line_ends.bind fun opened p₁ ⟨hopened, hp₁⟩ => ?_
  subst hopened hp₁
  exact (name_ends hplain).bind fun name p₂ hname =>
    hrest _ name (fun _ => .inl rfl) (fun _ => Site.made_of_name _ _ hname) trivial

/-- Clauses do not rename a list. -/
theorem listClauses_name [PatternCompiler] {place : ListPlace} {d d' : ListDraft}
    (h : listClauses bound place d p = .ok d' q) : d'.collection.name = d.collection.name :=
  (listClauses_filled rfl h).headFollows.info.name

/-- Clauses do not rename a group. -/
theorem groupClauses_name [PatternCompiler] {place : GroupPlace} {g g' : Group}
    (h : groupClauses place bound g p = .ok g' q) : g'.name = g.name :=
  (groupClauses_filled rfl h).headFollows.info.name

/-- A construct is opened, filled by a loop and closed.  Its reading fails in a call that the
loop makes, or with a failure that it made itself. -/
theorem filling_inside_or_made [PatternCompiler] {ρ γ : Type} {m : Reading ρ} {loop : ρ → Loop κ σ}
    {draft : ρ → σ} {close : ρ → σ → Reading γ} {opened : ρ → Progress → Prop}
    (hopen : Ends opened site.Made (m p))
    (hmakes : ∀ a q below, m p = .ok a q → (loop a).Makes bound (draft a) q below →
      site.Makes below)
    (hloop : ∀ a q, opened a q → (loop a).Blames site.Made)
    (hclose : ∀ a q d r, opened a q → (loop a).run bound (draft a) q = .ok d r →
      Blames site.Made (close a d))
    (h : (m >>= fun a => (loop a).run bound (draft a) >>= close a) p = .error failure q) :
    (∃ below, site.Makes below ∧ below.Fails failure) ∨ site.Made failure := by
  rcases bind_error.mp h with h | ⟨a, p₁, ha, h⟩
  · exact .inr (hopen.error h)
  have hopened : opened a p₁ := hopen.ok ha
  rcases bind_error.mp h with h | ⟨d, p₂, hd, h⟩
  · rcases (hloop a p₁ hopened).error h with ⟨below, hbelow, hfails⟩ | hmade
    · exact .inl ⟨below, hmakes a p₁ below ha hbelow, hfails⟩
    · exact .inr hmade
  · exact .inr ((hclose a p₁ d p₂ hopened hd).error trivial h)

theorem list_inside_or_made [PatternCompiler]
    (h : list (listClauses bound) access parent outer p = .error failure q) :
    (∃ below, Site.Makes ⟨keyword, .list access parent outer, bound, p⟩ below ∧
      below.Fails failure) ∨ Site.Made ⟨keyword, .list access parent outer, bound, p⟩ failure := by
  have hplain := Site.plain_made ⟨keyword, .list access parent outer, bound, p⟩
  have hopen := openList_ends hplain access parent outer fun cause _ =>
    Site.made_of_name ⟨keyword, .list access parent outer, bound, p⟩ cause
  have hfilling : (openList access parent outer >>= fun opening =>
      (listLoop opening.1).run bound opening.2 >>= closeList opening.1) p = .error failure q := by
    simp only [← listClauses_eq]
    exact h
  refine filling_inside_or_made hopen (fun opening p₁ below ho => .list ho)
    (fun opening p₁ ⟨hline, _⟩ => ?_) (fun opening p₁ d p₂ ⟨hline, hname⟩ hd => ?_) hfilling
  · exact listLoop_blames hplain opening.1 (hline ▸ Site.made_within _)
  · -- What is closed is called as it was when it was opened.
    rw [← listClauses_eq] at hd
    rw [← listClauses_name hd] at hname
    exact hplain.compositional.closeList d fun _ => hline ▸ Site.made_of_name _ _ hname

theorem group_inside_or_made [PatternCompiler] (h : group bound p = .error failure q) :
    (∃ below, Site.Makes ⟨keyword, .group, bound, p⟩ below ∧ below.Fails failure) ∨
      Site.Made ⟨keyword, .group, bound, p⟩ failure := by
  have hplain := Site.plain_made ⟨keyword, .group, bound, p⟩
  have hopen := openGroup_ends hplain (p := p)
  have hfilling : (openGroup >>= fun opening =>
      (groupLoop opening.1).run bound opening.2 >>= closeGroup opening.1) p =
      .error failure q := by
    simp only [← groupClauses_eq]
    exact h
  refine filling_inside_or_made hopen (fun opening p₁ below ho => .group ho)
    (fun opening p₁ ⟨hline, _⟩ => ?_) (fun opening p₁ g p₂ ⟨hline, hname⟩ hg => ?_) hfilling
  · exact groupLoop_blames hplain opening.1 (hline ▸ Site.made_within _)
  · rw [← groupClauses_eq] at hg
    rw [← groupClauses_name hg] at hname
    exact hplain.compositional.closeGroup g fun _ => hline ▸ Site.made_of_name _ _ hname

/-- **A call that fails makes a call that fails in the same way, or made the failure itself.** -/
theorem Site.Fails.inside_or_made [PatternCompiler] (h : site.Fails failure) :
    (∃ below, site.Makes below ∧ below.Fails failure) ∨ site.Made failure := by
  obtain ⟨keyword, call, bound, p⟩ := site
  obtain ⟨q, h⟩ := h
  cases call with
  | condition => exact .inr (condition_made.error h)
  | group => exact group_inside_or_made h
  | element access parent => exact .inr (element_made.error h)
  | list access parent outer => exact list_inside_or_made h

/-- The call fails, and none that it makes does. -/
structure Site.FailsItself [PatternCompiler] (site : Site) (failure : Failure) : Prop where
  fails : site.Fails failure
  innermost {below : Site} {failure' : Failure} (h : site.Makes below) : ¬ below.Fails failure'

/-- **Behind a call that fails is one that fails itself, and it made the failure.** -/
theorem Site.Fails.innermost [PatternCompiler] {site : Site} {failure : Failure}
    (h : site.Fails failure) :
    ∃ last, Relation.ReflTransGen Site.Makes site last ∧ last.FailsItself failure ∧
      last.Made failure := by
  by_cases hbelow : ∃ below failure', site.Makes below ∧ below.Fails failure'
  · obtain ⟨below, failure', hmakes, hfails⟩ := hbelow
    -- The failure inside went through, so it is the same one; and the bound is smaller inside.
    obtain rfl := (hmakes.fails hfails).unique h
    have hlt := hmakes.bound_lt
    obtain ⟨last, hsteps, hlast⟩ := Site.Fails.innermost hfails
    exact ⟨last, .head hmakes hsteps, hlast⟩
  · refine ⟨site, .refl, ⟨h, fun hmakes hfails => hbelow ⟨_, _, hmakes, hfails⟩⟩, ?_⟩
    exact h.inside_or_made.resolve_left fun ⟨below, hmakes, hfails⟩ =>
      hbelow ⟨below, failure, hmakes, hfails⟩
termination_by site.bound

/-- The token of the name stands in the lines like the keyword. -/
theorem Site.Placed.nameToken {lines : List Token.Line} (h : site.Placed lines) {token : Token}
    (htoken : token ∈ site.nameToken?) : Stream.StandsIn lines token := by
  have hreads := h.behind.reads
  unfold Site.nameToken? at htoken
  split at htoken
  · exact (hreads.next_behind.1.next_behind.2 token htoken).standsIn
  · exact (hreads.next_behind.2 token htoken).standsIn

end Calls
end Reading

/-! ## Failures of sources -/

section Sources
open Reading
open Token (Stream)

/-- A call of the statements of a source, or a call inside another one. -/
def CallOf [PatternCompiler] (stream : Stream) (s : Session) (site : Site) : Prop :=
  ∃ first, statementLoop.Makes (stream.unread + 1) () (.start stream s) first ∧
    Relation.ReflTransGen Site.Makes first site

variable {source : String} {stream : Stream} {s : Session} {site : Site} {failure : Failure}

/-- All calls of a source are placed in its lines. -/
theorem CallOf.placed [PatternCompiler] (h : CallOf stream s site)
    (hsource : Stream.ofSource source = .ok stream) :
    site.Placed (Stream.numberedLines source) := by
  obtain ⟨first, hfirst, hsteps⟩ := h
  induction hsteps with
  | refl =>
    exact hfirst.placed statementLoop_orderly statementLoop_callsByWord
      (Stream.reads_ofSource hsource) (Stream.exact_ofSource hsource)
  | tail _ hmakes ih => exact hmakes.placed ih

/-- A failure that is about a construct was made by a call, and no call inside fails. -/
theorem read_made [PatternCompiler] (h : (read stream s).result = .error failure)
    (hconstruct : failure.construct ≠ none) :
    ∃ site, CallOf stream s site ∧ site.FailsItself failure ∧ site.Owns failure := by
  obtain ⟨q, h⟩ := read_error_iff.mp h
  have hplain : Plain fun f => f.construct = none := fun _ => id
  rw [statements_eq] at h
  rcases (statementLoop_blames hplain).error h with ⟨first, hfirst, hfails⟩ | hnone
  · obtain ⟨last, hsteps, hitself, hmade⟩ := hfails.innermost
    exact ⟨last, ⟨first, hfirst, hsteps⟩, hitself, hmade.resolve_left hconstruct⟩
  · exact absurd hnone hconstruct

/-- **A source fails on one of its lines.  If the failure is about a construct, then this is
what failed**: of the calls that fail, the innermost is that of such a construct.  Its keyword
stands in the source on the line of the failure, and if the failure has a name, this stands
there as the name of the construct. -/
theorem read_attributes [PatternCompiler] (hsource : Stream.ofSource source = .ok stream)
    (h : (read stream s).result = .error failure) :
    (1 ≤ failure.line ∧ failure.line ≤ Text.lineCount source.toList) ∧
    ∀ construct, failure.construct = some construct → ∃ site, CallOf stream s site ∧
      site.FailsItself failure ∧ site.call.construct = construct ∧
      Stream.StandsIn (Stream.numberedLines source) site.keyword ∧
      site.keyword.text.toLower = construct.word ∧ failure.line = site.keyword.line ∧
      ∀ name, failure.name = some name → ∃ token, site.nameToken? = some token ∧
        Stream.StandsIn (Stream.numberedLines source) token ∧ token.text = name := by
  refine ⟨read_line hsource h, fun construct hconstruct => ?_⟩
  obtain ⟨site, hcall, hitself, howns⟩ := read_made h (by rw [hconstruct]; nofun)
  have hplaced := hcall.placed hsource
  obtain rfl : site.call.construct = construct :=
    Option.some.inj (howns.construct.symm.trans hconstruct)
  refine ⟨site, hcall, hitself, rfl, hplaced.behind.standsIn, hplaced.keyword,
    howns.line.trans hplaced.line.symm, fun name hname => ?_⟩
  obtain ⟨token, htoken, htext⟩ := howns.name name hname
  exact ⟨token, htoken, hplaced.nameToken htoken, htext⟩

/-- A group whose second element has no type.  This shows at the next keyword, two lines
further down. -/
def untypedSource : String :=
  "group setting g \"G\"\nelement a \"A\" type on_off\nelement b \"B\"\n\ngroup"

attribute [local instance] Text.Pattern.compiler in
theorem read_attributes_small : ∃ stream failure site,
    Stream.ofSource untypedSource = .ok stream ∧
      (read stream (.ofLimits {})).result = .error failure ∧
      failure.construct = some .element ∧ failure.name = some "b" ∧
      CallOf stream (.ofLimits {}) site ∧ site.keyword.line = 3 ∧
      ∃ token, site.nameToken? = some token ∧ token.text = "b" := by
  have hsource : Stream.ofSource untypedSource =
      .ok ⟨none, Stream.numberedLines untypedSource, 0, none⟩ := by decide +kernel
  have hread : (read ⟨none, Stream.numberedLines untypedSource, 0, none⟩ (.ofLimits {})).result =
      .error ⟨.defect .missingType, 3, some .element, some "b"⟩ := by decide +kernel
  obtain ⟨-, hconstruct⟩ := read_attributes hsource hread
  obtain ⟨site, hcall, -, -, -, -, hline, hname⟩ := hconstruct .element rfl
  obtain ⟨token, htoken, -, htext⟩ := hname "b" rfl
  exact ⟨_, _, site, hsource, hread, rfl, rfl, hcall, hline.symm, token, htoken, htext⟩

end Sources
end DeviceSchema.Statement
