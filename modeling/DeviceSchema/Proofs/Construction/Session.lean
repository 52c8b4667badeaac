import DeviceSchema.Proofs.Construction.Collection
import DeviceSchema.Statement.Source

/-! # How sessions grow

A statement that succeeds extends one registry of the session: it declares an error,
adds a condition or adds a group that was built (`SessionStep`).  A statement that
fails may leave statistics and `ref_enum` elements behind, but no registry moves.  So
a reading goes through the steps of the statements before the first that fails
(`read_ok`, `read_error`), and what every step preserves holds of every session that
readings lead to.
-/
namespace DeviceSchema.Statement
open Reading

/-- A group that was opened, whose clauses filled its body, that was settled and added to
its table. -/
structure GroupAdded (s s' : Session) : Prop where
  intro ::
  added : ∃ (kind : TableKind) (head : Head) (d : ListDraft) (t : Session) (body : Collection)
      (errors : List Notice) (table : Table),
    OpenedHead (s.scope kind) head ∧
    Filled (s.scope kind) ⟨kind, [head.info.name]⟩ 0 ⟨{ head }, kind.defaultAccess⟩
      (s.note (·.noteCollectionName head.info.name.length)) d t ∧
    t.registries = s.registries ∧
    d.collection.settle s.limits = (.ok (), body) ∧
    (s.table kind).addGroup ⟨body, errors⟩ = .ok () table ∧
    s' = (t.note (·.noteCollection body.head true)).withTable kind table

/-- What a statement that succeeds does to the session. -/
inductive SessionStep : Session → Session → Prop
  | globalError {s} (catalogs : Catalogs) : SessionStep s { s with catalogs }
  | condition {s table} (condition : Condition)
      (h : (s.table condition.source.table).addCondition condition = .ok () table) :
      SessionStep s (s.withTable condition.source.table table)
  | group {s s'} (h : GroupAdded s s') : SessionStep s s'

/-- The steps of any number of statements. -/
abbrev SessionSteps : Session → Session → Prop := Relation.ReflTransGen SessionStep

section Conditions
variable {γ : Type} {view : Session → γ} {p q : Progress}

theorem keeps_conditionClause {d : ConditionDraft} {kind : ConditionClause} :
    Keeps view (conditionClause d kind) := by
  cases kind with
  | source | pattern | value => exact keeps_text?.bind fun _ => keeps_pure
  | operation | caseRule =>
    exact keeps_text?.bind fun _ => keeps_taking.bind fun _ => keeps_pure

theorem keeps_conditionClauses {bound : Nat} {d : ConditionDraft} :
    Keeps view (conditionClauses bound d) := by
  induction bound generalizing d with
  | zero => exact keeps_pure
  | succ bound ih =>
    refine keeps_token?.bind fun token => ?_
    cases token with
    | none => exact keeps_pure
    | some token =>
      dsimp only
      split
      · exact keeps_conditionClause.bind fun _ => ih
      · exact keeps_dropLine.bind fun _ => ih
      · exact keeps_handBack.bind fun _ => keeps_pure

theorem keeps_required {opened : Nat} {part : Part} {text : Option String} :
    Keeps view (required opened part text) := by
  cases text with
  | none => exact keeps_failWithin
  | some text => exact keeps_pure

theorem keeps_predicate {opened : Nat} {d : ConditionDraft} :
    Keeps view (predicate opened d) := by
  unfold predicate
  split <;> exact keeps_required.bind fun _ => keeps_pure

/-- A condition that is read is added to the table of its source. -/
theorem condition_added {bound : Nat} {u : Unit} (h : condition bound p = .ok u q) :
    ∃ (c : Condition) (table : Table),
      (p.session.table c.source.table).addCondition c = .ok () table ∧
        q.session = p.session.withTable c.source.table table := by
  obtain ⟨opened, p₁, h₁, h⟩ := bind_ok.mp h
  obtain ⟨name, p₂, h₂, h⟩ := bind_ok.mp h
  obtain ⟨d, p₃, h₃, h⟩ := bind_ok.mp h
  obtain ⟨text, p₄, h₄, h⟩ := bind_ok.mp h
  obtain ⟨source, p₅, h₅, h⟩ := bind_ok.mp h
  obtain ⟨test, p₆, h₆, h⟩ := bind_ok.mp h
  obtain ⟨u₇, p₇, h₇, h⟩ := bind_ok.mp h
  have hs : p₆.session = p.session := by
    rw [keeps_predicate.session h₆, keeps_taking.session h₅, keeps_required.session h₄,
      keeps_conditionClauses.session h₃, keeps_name.session h₂, keeps_line.session h₁]
  obtain ⟨s, hadd, rfl⟩ := extending_ok.mp h₇
  obtain ⟨table, ht, rfl⟩ := Session.onTable_ok_iff.mp hadd
  refine ⟨⟨name, source, test⟩, table, hs ▸ ht, ?_⟩
  rw [keeps_tell.session h, hs]

theorem condition_step {bound : Nat} {u : Unit} (h : condition bound p = .ok u q) :
    SessionStep p.session q.session := by
  obtain ⟨c, table, hadd, hs⟩ := condition_added h
  rw [hs]
  exact .condition c hadd

theorem reverts_condition {bound : Nat} : Reverts view (condition bound) :=
  keeps_line.bind_reverts fun _ => keeps_name.bind_reverts fun _ =>
    keeps_conditionClauses.bind_reverts fun _ => keeps_required.bind_reverts fun _ =>
    keeps_taking.bind_reverts fun _ => keeps_predicate.bind_reverts fun _ =>
    (reverts_extending (Session.atomic_onTable Table.atomic_addCondition)).telling

end Conditions

section GlobalErrors
variable {γ : Type} {view : Session → γ} {p q : Progress}

theorem globalError_declared {u : Unit} (h : globalError p = .ok u q) :
    ∃ name description catalogs, p.session.catalogs.declare name description = .ok () catalogs ∧
      q.session = { p.session with catalogs } := by
  obtain ⟨name, p₁, h₁, h⟩ := bind_ok.mp h
  obtain ⟨description, p₂, h₂, h⟩ := bind_ok.mp h
  obtain ⟨s, hs, rfl⟩ := extending_ok.mp h
  obtain ⟨catalogs, hdeclare, rfl⟩ := Session.onCatalogs_ok_iff.mp hs
  rw [keeps_description?.session h₂, keeps_name.session h₁] at hdeclare ⊢
  exact ⟨name, description, catalogs, hdeclare, rfl⟩

theorem globalError_step {u : Unit} (h : globalError p = .ok u q) :
    SessionStep p.session q.session := by
  obtain ⟨-, -, catalogs, -, hs⟩ := globalError_declared h
  rw [hs]
  exact .globalError catalogs

theorem reverts_globalError : Reverts view globalError :=
  keeps_name.bind_reverts fun _ => keeps_description?.bind_reverts fun _ =>
    reverts_extending (Session.atomic_onCatalogs Catalogs.atomic_declare)

end GlobalErrors

section Groups
variable {p q : Progress}

theorem openGroup_ok {opening : GroupPlace × Group} (h : openGroup p = .ok opening q) :
    ∃ kind head opened, OpenedHead (p.session.scope kind) head ∧
      opening = (⟨opened, ⟨kind, [head.info.name]⟩⟩, { body := { head } }) ∧
      q.session = p.session.note (·.noteCollectionName head.info.name.length) := by
  obtain ⟨opened, p₁, h₁, h⟩ := bind_ok.mp h
  obtain ⟨word, p₂, h₂, h⟩ := bind_ok.mp h
  have hs₂ : p₂.session = p.session :=
    (keeps_tokenText.session h₂).trans (keeps_line.session h₁)
  dsimp only at h
  cases hkind : TableKind.ofWord? word with
  | none =>
    rw [hkind] at h
    cases h
  | some kind =>
    rw [hkind] at h
    obtain ⟨name, p₃, h₃, h⟩ := bind_ok.mp h
    obtain ⟨count, p₄, h₄, h⟩ := bind_ok.mp h
    obtain ⟨label, p₅, h₅, h⟩ := bind_ok.mp h
    obtain ⟨help, p₆, h₆, h⟩ := bind_ok.mp h
    obtain ⟨info, p₇, h₇, h⟩ := bind_ok.mp h
    obtain ⟨u₈, p₈, h₈, h⟩ := bind_ok.mp h
    obtain ⟨hi, hp₇⟩ := taking_ok.mp h₇
    have hscope : p₂.session.scope kind = p.session.scope kind := by rw [hs₂]
    obtain ⟨hopen, hname⟩ := opened_of_ok hscope h₃ h₅ hi
    obtain ⟨head, hhead, hinfo, h⟩ := head_ok hopen h
    obtain ⟨rfl, rfl⟩ := pure_ok.mp h
    refine ⟨kind, head, opened, hhead, by rw [hinfo, hname]; rfl, ?_⟩
    rw [note_ok h₈, ← hp₇, keeps_help?.session h₆, keeps_label?.session h₅,
      keeps_instances?.session h₄, keeps_name.session h₃, hs₂, hinfo, hname]

theorem closeGroup_ok {place : GroupPlace} {g : Group} {u : Unit}
    (h : closeGroup place g p = .ok u q) :
    ∃ body table, g.body.settle p.session.limits = (.ok (), body) ∧
      (p.session.table place.here.table).addGroup { g with body } = .ok () table ∧
      q.session = (p.session.note (·.noteCollection body.head true)).withTable
        place.here.table table := by
  obtain ⟨limits, p₁, h₁, h⟩ := bind_ok.mp h
  obtain ⟨rfl, rfl⟩ := limits_ok h₁
  cases hsettle : g.body.settle p₁.session.limits with
  | mk result body =>
    simp only [hsettle] at h
    obtain ⟨u₂, p₂, h₂, h⟩ := bind_ok.mp h
    obtain ⟨u₃, p₃, h₃, h⟩ := bind_ok.mp h
    obtain ⟨u₄, p₄, h₄, h⟩ := bind_ok.mp h
    obtain ⟨hresult, hp₂⟩ := closing_ok.mp h₂
    obtain ⟨s, hadd, hp₄⟩ := extending_ok.mp h₄
    obtain ⟨table, ht, rfl⟩ := Session.onTable_ok_iff.mp hadd
    have hs₃ := note_ok h₃
    refine ⟨body, table, by rw [hresult], ?_, ?_⟩
    · rwa [hs₃, ← hp₂, Session.note_table] at ht
    · rw [keeps_tell.session h, ← hp₄, hs₃, ← hp₂]

theorem reverts_closeGroup {place : GroupPlace} {g : Group} :
    Reverts Session.registries (closeGroup place g) := by
  refine keeps_limits.bind_reverts fun limits => ?_
  cases g.body.settle limits with
  | mk result body =>
    exact keeps_closing.bind_reverts fun _ => keeps_note.bind_reverts fun _ =>
      (reverts_extending (Session.atomic_onTable Table.atomic_addGroup)).telling

theorem group_step [PatternCompiler] {bound : Nat} {u : Unit} (h : group bound p = .ok u q) :
    SessionStep p.session q.session := by
  obtain ⟨opening, p₁, h₁, h⟩ := bind_ok.mp h
  obtain ⟨g, p₂, h₂, h⟩ := bind_ok.mp h
  have hr₁ : p₁.session.registries = p.session.registries := keeps_openGroup.ok h₁
  have hr₂ : p₂.session.registries = p₁.session.registries := keeps_groupClauses.ok h₂
  obtain ⟨kind, head, opened, hhead, rfl, hs₁⟩ := openGroup_ok h₁
  have hfilled := groupClauses_filled (Session.scope_eq_of_registries hr₁ kind) h₂
  obtain ⟨body, table, hsettle, hadd, hs⟩ := closeGroup_ok h
  have hr := hr₂.trans hr₁
  have hlimits : p₂.session.limits = p.session.limits := (Prod.mk.inj hr).1
  rw [hs₁] at hfilled
  rw [hlimits] at hsettle
  rw [Session.table_eq_of_registries hr] at hadd
  exact .group ⟨kind, head, _, p₂.session, body, g.errors, table, hhead, hfilled, hr, hsettle,
    hadd, hs⟩

theorem reverts_group [PatternCompiler] {bound : Nat} : Reverts Session.registries (group bound) :=
  keeps_openGroup.bind_reverts fun _ => keeps_groupClauses.bind_reverts fun _ =>
    reverts_closeGroup

end Groups

/-! ## Whole sources -/

variable [PatternCompiler]

section Sources
variable {p q : Progress}

theorem statement_step {bound : Nat} {kind : Kind} {u : Unit}
    (h : statement bound kind p = .ok u q) : SessionStep p.session q.session := by
  cases kind with
  | globalError => exact globalError_step h
  | condition => exact condition_step h
  | group => exact group_step h

theorem reverts_statement {bound : Nat} {kind : Kind} :
    Reverts Session.registries (statement bound kind) := by
  cases kind with
  | globalError => exact reverts_globalError
  | condition => exact reverts_condition
  | group => exact reverts_group

/-- What statements do first if they are read to their end. -/
theorem statements_ok_cases {bound : Nat} {u : Unit} (h : statements (bound + 1) p = .ok u q) :
    token? p = .ok none q ∨
    ∃ token p₁ p₂, token? p = .ok (some token) p₁ ∧ statements bound p₂ = .ok u q ∧
      ((∃ kind, Lead.ofToken keywords token = .clause kind ∧ statement bound kind p₁ = .ok () p₂) ∨
        (Lead.ofToken keywords token = .comment ∧ dropLine p₁ = .ok () p₂)) := by
  obtain ⟨token, p₁, htoken, h⟩ := bind_ok.mp h
  cases token with
  | none =>
    obtain ⟨-, rfl⟩ := pure_ok.mp h
    exact .inl htoken
  | some token =>
    dsimp only at h
    cases hlead : Lead.ofToken keywords token with
    | clause kind =>
      rw [hlead] at h
      obtain ⟨u₂, p₂, hstatement, h⟩ := bind_ok.mp h
      exact .inr ⟨token, p₁, p₂, htoken, h, .inl ⟨kind, hlead, hstatement⟩⟩
    | comment =>
      rw [hlead] at h
      obtain ⟨u₂, p₂, hdrop, h⟩ := bind_ok.mp h
      exact .inr ⟨token, p₁, p₂, htoken, h, .inr ⟨hlead, hdrop⟩⟩
    | other =>
      rw [hlead] at h
      cases h

/-- What statements do first if one of them fails. -/
theorem statements_error_cases {bound : Nat} {failure : Failure}
    (h : statements (bound + 1) p = .error failure q) :
    ∃ token p₁, token? p = .ok (some token) p₁ ∧
      ((∃ kind, Lead.ofToken keywords token = .clause kind ∧
          (statement bound kind p₁ = .error failure q ∨
            ∃ p₂, statement bound kind p₁ = .ok () p₂ ∧ statements bound p₂ = .error failure q)) ∨
        (Lead.ofToken keywords token = .comment ∧
          ∃ p₂, dropLine p₁ = .ok () p₂ ∧ statements bound p₂ = .error failure q) ∨
        (Lead.ofToken keywords token = .other ∧ p₁ = q ∧
          failure = { cause := .unknownKeyword token.text, line := q.stream.line })) := by
  rcases bind_error.mp h with h | ⟨token, p₁, htoken, h⟩
  · cases h
  cases token with
  | none => cases h
  | some token =>
    refine ⟨token, p₁, htoken, ?_⟩
    dsimp only at h
    cases hlead : Lead.ofToken keywords token with
    | clause kind =>
      rw [hlead] at h
      refine .inl ⟨kind, rfl, ?_⟩
      rcases bind_error.mp h with h | ⟨u, p₂, hstatement, h⟩
      · exact .inl h
      · exact .inr ⟨p₂, hstatement, h⟩
    | comment =>
      rw [hlead] at h
      rcases bind_error.mp h with h | ⟨u, p₂, hdrop, h⟩
      · cases h
      · exact .inr (.inl ⟨rfl, p₂, hdrop, h⟩)
    | other =>
      rw [hlead] at h
      cases h
      exact .inr (.inr ⟨rfl, rfl, rfl⟩)

theorem statements_ok {bound : Nat} {u : Unit} (h : statements bound p = .ok u q) :
    SessionSteps p.session q.session := by
  induction bound generalizing p with
  | zero =>
    obtain ⟨-, rfl⟩ := pure_ok.mp h
    exact .refl
  | succ bound ih =>
    rcases statements_ok_cases h with htoken | ⟨token, p₁, p₂, htoken, hrest, hfirst⟩
    · rw [keeps_token?.session htoken]
    rw [← keeps_token?.session htoken]
    rcases hfirst with ⟨kind, -, hstatement⟩ | ⟨-, hdrop⟩
    · exact .head (statement_step hstatement) (ih hrest)
    · rw [← keeps_dropLine.session hdrop]
      exact ih hrest

/-- Statements that end with a failure have made the steps of those before it, and no
registry has moved since. -/
theorem statements_error {bound : Nat} {failure : Failure}
    (h : statements bound p = .error failure q) :
    ∃ s, SessionSteps p.session s ∧ q.session.registries = s.registries := by
  induction bound generalizing p with
  | zero => cases h
  | succ bound ih =>
    obtain ⟨token, p₁, htoken, hfirst⟩ := statements_error_cases h
    rw [← keeps_token?.session htoken]
    rcases hfirst with ⟨kind, -, hfails | ⟨p₂, hstatement, hrest⟩⟩ | ⟨-, p₂, hdrop, hrest⟩ |
      ⟨-, rfl, -⟩
    · exact ⟨p₁.session, .refl, reverts_statement _ _ _ hfails⟩
    · obtain ⟨s, hsteps, hs⟩ := ih hrest
      exact ⟨s, .head (statement_step hstatement) hsteps, hs⟩
    · rw [← keeps_dropLine.session hdrop]
      exact ih hrest
    · exact ⟨_, .refl, rfl⟩

end Sources

/-- **A source that is read goes through the steps of its statements.** -/
theorem read_ok {stream : Token.Stream} {s : Session} (h : (read stream s).result = .ok ()) :
    SessionSteps s (read stream s).progress.session := by
  unfold read at h ⊢
  cases hread : readAll ⟨stream, s, #[.ofDebug "Starting syntax analysis"]⟩ with
  | ok u p => exact statements_ok hread
  | error failure p =>
    rw [hread] at h
    cases h

/-- **Whatever a source does, its registries come from steps of statements.** -/
theorem read_steps (stream : Token.Stream) (s : Session) :
    ∃ s', SessionSteps s s' ∧ (read stream s).progress.session.registries = s'.registries := by
  unfold read
  cases hread : readAll ⟨stream, s, #[.ofDebug "Starting syntax analysis"]⟩ with
  | ok u p => exact ⟨p.session, statements_ok hread, rfl⟩
  | error failure p => exact statements_error hread

end DeviceSchema.Statement
