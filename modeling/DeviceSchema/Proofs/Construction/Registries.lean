import DeviceSchema.Proofs.Construction.Session

/-! # Statements are all or nothing

The registries of a session are both tables and the error catalogs.  A statement that
succeeds adds one **entry** to them, at the end of the one registry that the entry belongs to
(`Session.withEntry`).  A statement that fails, however deep in its clauses, adds nothing:
what it leaves behind is no more than statistics and `ref_enum` elements in the index.

So the registries after a reading are those at its start with the entries of the statements
that were **completed**, one after another (`Completed.registries`).  If the reading fails it
is the next statement that fails, and no trace of it is left there
(`registries_of_statements`).
-/
namespace DeviceSchema

/-- What a statement adds to the registries. -/
inductive Entry where
  | globalError (notice : Notice)
  | condition (kind : TableKind) (c : Condition)
  | group (kind : TableKind) (g : Group)

/-- The kind of statement that adds such an entry. -/
def Entry.kind : Entry → Statement.Kind
  | globalError _ => .globalError
  | condition _ _ => .condition
  | group _ _ => .group

namespace Session

/-- The session with an entry at the end of the registry that it belongs to. -/
def withEntry (s : Session) : Entry → Session
  | .globalError notice =>
    { s with catalogs := { s.catalogs with declared := s.catalogs.declared.append notice } }
  | .condition kind c =>
    s.withTable kind { s.table kind with conditions := (s.table kind).conditions ++ [c] }
  | .group kind g =>
    s.withTable kind { s.table kind with groups := (s.table kind).groups ++ [g] }

variable {s t : Session}

/-- Which registries an entry leads to depends on the registries only. -/
theorem withEntry_registries (h : s.registries = t.registries) (entry : Entry) :
    (s.withEntry entry).registries = (t.withEntry entry).registries := by
  cases entry with
  | globalError notice =>
    simp only [registries, Prod.mk.injEq] at h
    simp [registries, withEntry, h]
  | condition kind c =>
    rw [withEntry, withEntry, table_eq_of_registries h]
    exact withTable_registries h kind _
  | group kind g =>
    rw [withEntry, withEntry, table_eq_of_registries h]
    exact withTable_registries h kind _

theorem foldl_withEntry_registries (h : s.registries = t.registries) (entries : List Entry) :
    (entries.foldl withEntry s).registries = (entries.foldl withEntry t).registries := by
  induction entries generalizing s t with
  | nil => exact h
  | cons entry rest ih => exact ih (withEntry_registries h entry)

end Session

namespace Statement
open Reading

section Statements
variable {p q : Progress}

theorem globalError_entry {u : Unit} (h : globalError p = .ok u q) :
    ∃ notice, q.session = p.session.withEntry (.globalError notice) := by
  obtain ⟨name, description, catalogs, hdeclare, hs⟩ := globalError_declared h
  obtain ⟨text, -, -, -, rfl⟩ := Catalogs.declare_ok_iff.mp hdeclare
  exact ⟨⟨name, text⟩, hs⟩

theorem condition_entry {bound : Nat} {u : Unit} (h : condition bound p = .ok u q) :
    ∃ c : Condition, q.session = p.session.withEntry (.condition c.source.table c) := by
  obtain ⟨c, table, hadd, hs⟩ := condition_added h
  obtain ⟨-, rfl⟩ := Table.addCondition_ok_iff.mp hadd
  exact ⟨c, hs⟩

/-- A group notes statistics while it is read, and it is registered at its very end. -/
theorem group_entry [PatternCompiler] {bound : Nat} {u : Unit} (h : group bound p = .ok u q) :
    ∃ kind g, q.session.registries = (p.session.withEntry (.group kind g)).registries := by
  obtain ⟨⟨place, opened⟩, p₁, h₁, h⟩ := bind_ok.mp h
  obtain ⟨g, p₂, h₂, h⟩ := bind_ok.mp h
  obtain ⟨body, table, -, hadd, hs⟩ := closeGroup_ok h
  obtain ⟨-, rfl⟩ := Table.addGroup_ok_iff.mp hadd
  have hr : p₂.session.registries = p.session.registries :=
    (keeps_groupClauses.ok h₂).trans (keeps_openGroup.ok h₁)
  refine ⟨place.here.table, { g with body }, ?_⟩
  rw [hs, Session.table_eq_of_registries hr]
  exact Session.withTable_registries ((Session.note_registries _ _).trans hr) _ _

/-- **A statement that succeeds adds one entry, at the end of its registry.** -/
theorem statement_entry [PatternCompiler] {bound : Nat} {kind : Kind} {u : Unit}
    (h : statement bound kind p = .ok u q) :
    ∃ entry : Entry, entry.kind = kind ∧
      q.session.registries = (p.session.withEntry entry).registries := by
  cases kind with
  | globalError =>
    obtain ⟨notice, hs⟩ := globalError_entry h
    exact ⟨.globalError notice, rfl, congrArg Session.registries hs⟩
  | condition =>
    obtain ⟨c, hs⟩ := condition_entry h
    exact ⟨.condition c.source.table c, rfl, congrArg Session.registries hs⟩
  | group =>
    obtain ⟨table, g, hr⟩ := group_entry h
    exact ⟨.group table g, rfl, hr⟩

end Statements

/-! ## Whole sources -/

variable [PatternCompiler]

/-- Statements with comments between them that were completed, what they have added, and
where the next one begins. -/
inductive Completed : Nat → Progress → List Entry → Nat → Progress → Prop
  | none {bound : Nat} {p : Progress} : Completed bound p [] bound p
  | comment {bound rest : Nat} {p q r z : Progress} {token : Token} {entries : List Entry}
      (htoken : token? p = .ok (some token) q) (hlead : Lead.ofToken keywords token = .comment)
      (hdrop : dropLine q = .ok () r) (h : Completed bound r entries rest z) :
      Completed (bound + 1) p entries rest z
  | statement {bound rest : Nat} {p q r z : Progress} {token : Token} {kind : Kind}
      {entry : Entry} {entries : List Entry} (htoken : token? p = .ok (some token) q)
      (hlead : Lead.ofToken keywords token = .clause kind)
      (hstatement : statement bound kind q = .ok () r) (hkind : entry.kind = kind)
      (hadd : r.session.registries = (q.session.withEntry entry).registries)
      (h : Completed bound r entries rest z) :
      Completed (bound + 1) p (entry :: entries) rest z

/-- The next statement fails, or there is none because its keyword is unknown. -/
inductive FailsNext : Nat → Progress → Failure → Progress → Prop
  | statement {bound : Nat} {p q r : Progress} {token : Token} {kind : Kind} {failure : Failure}
      (htoken : token? p = .ok (some token) q)
      (hlead : Lead.ofToken keywords token = .clause kind)
      (hstatement : statement bound kind q = .error failure r) :
      FailsNext (bound + 1) p failure r
  | keyword {bound : Nat} {p q : Progress} {token : Token}
      (htoken : token? p = .ok (some token) q) (hlead : Lead.ofToken keywords token = .other) :
      FailsNext (bound + 1) p { cause := .unknownKeyword token.text, line := q.stream.line } q

section Sources
variable {bound rest : Nat} {p q r : Progress} {entries : List Entry} {failure : Failure}

/-- **The registries hold what the completed statements have added and nothing else.** -/
theorem Completed.registries (h : Completed bound p entries rest r) :
    r.session.registries = (entries.foldl Session.withEntry p.session).registries := by
  induction h with
  | none => rfl
  | comment htoken hlead hdrop h ih =>
    rw [ih, keeps_dropLine.session hdrop, keeps_token?.session htoken]
  | statement htoken hlead hstatement hkind hadd h ih =>
    rw [ih, List.foldl_cons, ← keeps_token?.session htoken]
    exact Session.foldl_withEntry_registries hadd _

/-- The statement that fails leaves the registries alone. -/
theorem FailsNext.registries (h : FailsNext bound p failure q) :
    q.session.registries = p.session.registries := by
  cases h with
  | statement htoken hlead hstatement =>
    rw [reverts_statement _ _ _ hstatement, keeps_token?.session htoken]
  | keyword htoken hlead => rw [keeps_token?.session htoken]

theorem statements_completed {u : Unit} (h : statements bound p = .ok u q) :
    ∃ entries rest r, Completed bound p entries rest r ∧ q.session = r.session := by
  induction bound generalizing p with
  | zero =>
    obtain ⟨-, rfl⟩ := pure_ok.mp h
    exact ⟨[], 0, p, .none, rfl⟩
  | succ bound ih =>
    rcases statements_ok_cases h with htoken | ⟨token, p₁, p₂, htoken, hrest, hfirst⟩
    · exact ⟨[], bound + 1, p, .none, keeps_token?.session htoken⟩
    obtain ⟨entries, rest, r, hcompleted, hs⟩ := ih hrest
    rcases hfirst with ⟨kind, hlead, hstatement⟩ | ⟨hlead, hdrop⟩
    · obtain ⟨entry, hkind, hadd⟩ := statement_entry hstatement
      exact ⟨entry :: entries, rest, r,
        .statement htoken hlead hstatement hkind hadd hcompleted, hs⟩
    · exact ⟨entries, rest, r, .comment htoken hlead hdrop hcompleted, hs⟩

theorem statements_failed (h : statements bound p = .error failure q) :
    ∃ entries rest r, Completed bound p entries rest r ∧ FailsNext rest r failure q := by
  induction bound generalizing p with
  | zero => cases h
  | succ bound ih =>
    obtain ⟨token, p₁, htoken, hfirst⟩ := statements_error_cases h
    rcases hfirst with ⟨kind, hlead, hfails | ⟨p₂, hstatement, hrest⟩⟩ |
      ⟨hlead, p₂, hdrop, hrest⟩ | ⟨hlead, rfl, rfl⟩
    · exact ⟨[], bound + 1, p, .none, .statement htoken hlead hfails⟩
    · obtain ⟨entry, hkind, hadd⟩ := statement_entry hstatement
      obtain ⟨entries, rest, r, hcompleted, hfails⟩ := ih hrest
      exact ⟨entry :: entries, rest, r,
        .statement htoken hlead hstatement hkind hadd hcompleted, hfails⟩
    · obtain ⟨entries, rest, r, hcompleted, hfails⟩ := ih hrest
      exact ⟨entries, rest, r, .comment htoken hlead hdrop hcompleted, hfails⟩
    · exact ⟨[], bound + 1, p, .none, .keyword htoken hlead⟩

end Sources

/-- **A statement adds one entry or nothing, and after a reading the registries hold what the
statements completed before its end or its failure have added.** -/
theorem registries_of_statements :
    (∀ bound kind p, match statement bound kind p with
      | .ok _ q => ∃ entry : Entry, entry.kind = kind ∧
          q.session.registries = (p.session.withEntry entry).registries
      | .error _ q => q.session.registries = p.session.registries) ∧
    ∀ stream session, ∃ entries rest r,
      Completed (stream.unread + 1) ⟨stream, session, #[.ofDebug "Starting syntax analysis"]⟩
        entries rest r ∧
      (read stream session).progress.session.registries =
        (entries.foldl Session.withEntry session).registries ∧
      ∀ failure, (read stream session).result = .error failure → ∃ q, FailsNext rest r failure q := by
  constructor
  · intro bound kind p
    cases hstatement : statement bound kind p with
    | ok u q => exact statement_entry hstatement
    | error failure q => exact reverts_statement p failure q hstatement
  · intro stream session
    unfold read readAll
    cases hread : statements (stream.unread + 1)
        ⟨stream, session, #[.ofDebug "Starting syntax analysis"]⟩ with
    | ok u q =>
      obtain ⟨entries, rest, r, hcompleted, hs⟩ := statements_completed hread
      refine ⟨entries, rest, r, hcompleted, ?_, fun failure h => by cases h⟩
      rw [← hcompleted.registries, ← hs]
    | error failure q =>
      obtain ⟨entries, rest, r, hcompleted, hfails⟩ := statements_failed hread
      refine ⟨entries, rest, r, hcompleted, ?_, fun failure' h => ?_⟩
      · rw [← hcompleted.registries]
        exact hfails.registries
      · cases h
        exact ⟨q, hfails⟩

end Statement
end DeviceSchema
