import DeviceSchema.Proofs.Construction.Collection
import DeviceSchema.Proofs.Lockstep.Element
import DeviceSchema.Statement.Source
import DeviceSchema.Text.Pattern

/-! # Sources in step

Readers alongside each other read the same lists, groups and statements, however deep
lists nest.  Two layouts of the same pieces make two such readers, and both loops over
statements have the same bound, so reading either layout gives the same session
(`readsTo_layout_iff`).
-/
namespace DeviceSchema.Statement
open Token (Piece)

namespace Reading
variable {α : Type}

/-! ## Lists and groups -/

section Collections

/-- Places that differ at most in the line on which the list was opened. -/
def ListPlace.Alike (place place' : ListPlace) : Prop :=
  place'.here = place.here ∧ place'.depth = place.depth

/-- What follows a head that may have a count. -/
theorem inStep_head {R : α → α → Prop} {count : Option Int} {info : Info}
    {rest rest' : Head → Reading α} (h : ∀ head, InStep R (rest head) (rest' head)) :
    InStep R (headed count info rest) (headed count info rest') := by
  cases count with
  | none => exact InStepOr.next (inStep_pure rfl) h
  | some count => exact InStepOr.next inStep_taking h

theorem inStep_openList {access : Access} {parent : Path} {outer : Nat} :
    InStep (fun a b => ListPlace.Alike a.1 b.1 ∧ a.2 = b.2) (openList access parent outer)
      (openList access parent outer) := by
  refine inStep_line fun opened opened' => inStep_name.next fun name =>
    inStep_instances?.next fun count => ?_
  dsimp only
  split
  · exact (refuses_failIn.bind).inStep
  · exact inStep_note.next fun _ => inStep_label?.next fun _ => inStep_help?.next fun _ =>
      inStep_taking.next fun _ => inStep_note.next fun _ =>
      inStep_head fun _ => inStep_pure ⟨⟨rfl, rfl⟩, rfl⟩

theorem inStep_closeList {place place' : ListPlace} {d : ListDraft} :
    InStep Eq (closeList place d) (closeList place' d) :=
  inStep_limits.next fun _ => inStep_closing.next fun _ => inStep_note.next fun _ =>
    inStep_note.next fun _ => inStep_pure rfl

theorem inStep_list {clauses : ListPlace → ListDraft → Reading ListDraft} {access : Access}
    {parent : Path} {outer : Nat}
    (h : ∀ place place' d, ListPlace.Alike place place' →
      InStep Eq (clauses place d) (clauses place' d)) :
    InStep Eq (list clauses access parent outer) (list clauses access parent outer) := by
  refine InStepOr.bind inStep_openList fun a b hab => ?_
  obtain ⟨place, d⟩ := a
  obtain ⟨place', d'⟩ := b
  obtain ⟨hplace, rfl⟩ := hab
  exact (h place place' d hplace).next fun _ => inStep_closeList

theorem inStep_adding {c : Collection} {item : Item} :
    InStep Eq (adding c item) (adding c item) := inStep_taking

theorem inStep_attaching {c : Collection} {here : Path} :
    InStep Eq (attaching c here) (attaching c here) :=
  inStep_attachment.next fun _ => inStep_pure rfl

theorem inStep_listClauses [PatternCompiler] {count : Nat} {place place' : ListPlace}
    {d : ListDraft} (hplace : ListPlace.Alike place place') :
    InStep Eq (listClauses count place d) (listClauses count place' d) := by
  induction count generalizing place place' d with
  | zero => exact inStep_pure rfl
  | succ count ih =>
    refine inStep_token? (inStep_pure rfl) fun token token' htext hhash => ?_
    dsimp only
    rw [ofToken_congr htext]
    cases hlead : Lead.ofToken listKeywords token with
    | clause kind =>
      refine .ahead ?_ fun hquote => ?_
      · obtain ⟨hhere, hdepth⟩ := hplace
        cases kind with
        | capacity => exact inStep_capacity.next fun _ => ih ⟨hhere, hdepth⟩
        | keys => exact inStep_keys.next fun _ => ih ⟨hhere, hdepth⟩
        | access =>
          exact InStepOr.next (inStep_access.next fun _ => inStep_taking.next fun _ =>
            inStep_pure rfl) fun _ => ih ⟨hhere, hdepth⟩
        | element =>
          rw [hhere]
          exact inStep_element.next fun _ => inStep_adding.next fun _ => ih ⟨hhere, hdepth⟩
        | list =>
          rw [hhere, hdepth]
          have hlist : InStep Eq (list (listClauses count) d.access place.here place.depth)
              (list (listClauses count) d.access place.here place.depth) :=
            inStep_list fun _ _ _ hinner => ih hinner
          exact hlist.next fun _ => inStep_adding.next fun _ => ih ⟨hhere, hdepth⟩
        | condition =>
          rw [hhere]
          exact inStep_attaching.next fun _ => ih ⟨hhere, hdepth⟩
        | stop => exact inStep_pure rfl
      · rw [ofToken_quote (by decide) hquote] at hlead
        cases hlead
    | comment => exact absurd (ofToken_comment hlead) hhash
    | other =>
      exact .ahead refuses_failWithin.inStep fun _ p a q hrun => refuses_failWithin p a q hrun

theorem inStep_errorClause {g : Group} : InStep Eq (errorClause g) (errorClause g) :=
  inStep_name.next fun _ => inStep_description?.next fun _ => inStep_taking

theorem inStep_groupClauses [PatternCompiler] {count : Nat} {place place' : GroupPlace} {g : Group}
    (hplace : place'.here = place.here) :
    InStep Eq (groupClauses place count g) (groupClauses place' count g) := by
  induction count generalizing g with
  | zero => exact inStep_pure rfl
  | succ count ih =>
    refine inStep_token? (inStep_pure rfl) fun token token' htext hhash => ?_
    dsimp only
    rw [ofToken_congr htext, hplace]
    cases hlead : Lead.ofToken groupKeywords token with
    | clause kind =>
      refine .ahead ?_ fun hquote => ?_
      · cases kind with
        | capacity => exact inStep_capacity.next fun _ => ih
        | keys => exact inStep_keys.next fun _ => ih
        | condition => exact inStep_attaching.next fun _ => ih
        | element => exact inStep_element.next fun _ => inStep_adding.next fun _ => ih
        | list =>
          have hlist : InStep Eq
              (list (listClauses count) place.here.table.defaultAccess place.here 0)
              (list (listClauses count) place.here.table.defaultAccess place.here 0) :=
            inStep_list fun _ _ _ hinner => inStep_listClauses hinner
          exact hlist.next fun _ => inStep_adding.next fun _ => ih
        | error => exact inStep_errorClause.next fun _ => ih
        | stop => exact inStep_pure rfl
      · rw [ofToken_quote (by decide) hquote] at hlead
        cases hlead
    | comment => exact absurd (ofToken_comment hlead) hhash
    | other => exact .back rfl rfl rfl

theorem inStep_openGroup :
    InStep (fun a b => b.1.here = a.1.here ∧ a.2 = b.2) openGroup openGroup := by
  refine inStep_line fun opened opened' => ?_
  refine inStep_tokenText.bind_or (fun word word' hword => ?_) fun word hquote p a q hrun => ?_
  · subst hword
    dsimp only
    split
    · exact inStep_name.next fun _ => inStep_instances?.next fun _ => inStep_label?.next fun _ =>
        inStep_help?.next fun _ => inStep_taking.next fun _ => inStep_note.next fun _ =>
        inStep_head fun _ => inStep_pure ⟨rfl, rfl⟩
    · exact refuses_failAt.inStep
  · have hnone : TableKind.ofWord? word = none := find?_word_quote (by decide) hquote
    rw [hnone] at hrun
    exact refuses_failAt _ _ _ hrun

theorem inStep_closeGroup {place place' : GroupPlace} {g : Group}
    (hplace : place'.here = place.here) :
    InStep Eq (closeGroup place g) (closeGroup place' g) := by
  unfold closeGroup
  rw [hplace]
  exact inStep_limits.next fun _ => inStep_closing.next fun _ => inStep_note.next fun _ =>
    inStep_extending.next fun _ => inStep_tell

theorem inStep_group [PatternCompiler] {count : Nat} : InStep Eq (group count) (group count) := by
  refine InStepOr.bind inStep_openGroup fun a b hab => ?_
  obtain ⟨place, g⟩ := a
  obtain ⟨place', g'⟩ := b
  obtain ⟨hplace, rfl⟩ := hab
  exact (inStep_groupClauses hplace).next fun _ => inStep_closeGroup hplace

end Collections

/-! ## Sources -/

section Sources
variable [PatternCompiler]

theorem inStep_statement {count : Nat} (kind : Kind) :
    InStep Eq (statement count kind) (statement count kind) := by
  cases kind with
  | globalError =>
    exact inStep_name.next fun _ => inStep_description?.next fun _ => inStep_extending
  | condition => exact inStep_condition
  | group => exact inStep_group

theorem inStep_statements {count : Nat} : InStep Eq (statements count) (statements count) := by
  induction count with
  | zero => exact inStep_pure rfl
  | succ count ih =>
    refine inStep_token? (inStep_pure rfl) fun token token' htext hhash => ?_
    dsimp only
    rw [ofToken_congr htext]
    cases hlead : Lead.ofToken keywords token with
    | clause kind =>
      refine .ahead ((inStep_statement kind).next fun _ => ih) fun hquote => ?_
      rw [ofToken_quote (by decide) hquote] at hlead
      cases hlead
    | comment => exact absurd (ofToken_comment hlead) hhash
    | other => exact .ahead refuses_fail.inStep fun _ p a q hrun => refuses_fail p a q hrun

end Sources
end Reading

/-- Reading a source into `s` succeeds and leaves `s'`. -/
def ReadsTo [PatternCompiler] (s : Session) (source : String) (s' : Session) : Prop :=
  ∃ stream, Token.Stream.ofSource source = .ok stream ∧
    (read stream s).result = .ok () ∧ (read stream s).progress.session = s'

theorem read_result_iff [PatternCompiler] {stream : Token.Stream} {s s' : Session} :
    (read stream s).result = .ok () ∧ (read stream s).progress.session = s' ↔
      ∃ p, readAll ⟨stream, s, #[.ofDebug "Starting syntax analysis"]⟩ = .ok () p ∧
        p.session = s' := by
  unfold read
  cases readAll ⟨stream, s, #[.ofDebug "Starting syntax analysis"]⟩ with
  | ok u p => simp
  | error failure p => simp

theorem ReadsTo.of_layout [PatternCompiler] {ps : List Piece} {source source' : String}
    {s s' : Session} (h : Token.Layout ps source.toList) (h' : Token.Layout ps source'.toList)
    (hread : ReadsTo s source s') : ReadsTo s source' s' := by
  obtain ⟨stream, hstream, hread⟩ := hread
  obtain ⟨hshort, hsource⟩ := Token.Stream.ofSource_layout h
  obtain ⟨hshort', hsource'⟩ := Token.Stream.ofSource_layout h'
  obtain ⟨stream', hstream'⟩ := hshort'.mpr (hshort.mp ⟨stream, hstream⟩)
  obtain ⟨hholds, hunread⟩ := hsource stream hstream
  obtain ⟨hholds', hunread'⟩ := hsource' stream' hstream'
  obtain ⟨p, hp, hsession⟩ := read_result_iff.mp hread
  refine ⟨stream', hstream', read_result_iff.mpr ?_⟩
  -- As much is unread of the one source as of the other, so the loops have the same bound.
  unfold readAll at hp ⊢
  dsimp only at hp ⊢
  rw [hunread] at hp
  rw [hunread']
  have hstart : Alongside ps ⟨stream, s, #[.ofDebug "Starting syntax analysis"]⟩
      ⟨stream', s, #[.ofDebug "Starting syntax analysis"]⟩ := ⟨hholds, hholds', rfl⟩
  obtain ⟨u, q, ps', hq, -, hend⟩ :=
    (Reading.inStep_statements ps _ _ () p hstart hp).resolve_left id
  exact ⟨q, hq, hend.session.trans hsession⟩

/-- **What reading gives does not depend on the layout.** -/
theorem readsTo_layout_iff [PatternCompiler] {ps : List Piece} {source source' : String}
    {s s' : Session} (h : Token.Layout ps source.toList) (h' : Token.Layout ps source'.toList) :
    ReadsTo s source s' ↔ ReadsTo s source' s' :=
  ⟨fun hread => hread.of_layout h h', fun hread => hread.of_layout h' h⟩

/-- Whether reading a source succeeds. -/
def reads [PatternCompiler] (s : Session) (source : String) : Bool :=
  match Token.Stream.ofSource source with
  | .ok stream => (read stream s).result.toOption.isSome
  | .error _ => false

theorem exists_readsTo [PatternCompiler] {s : Session} {source : String}
    (h : reads s source = true) :
    ∃ s', ReadsTo s source s' := by
  unfold reads at h
  split at h
  · rename_i stream hstream
    refine ⟨_, stream, hstream, ?_, rfl⟩
    cases hresult : (read stream s).result with
    | ok u => rfl
    | error failure =>
      rw [hresult] at h
      cases h
  · cases h

/-- The pieces of a group with one element, whose maximum is an expression. -/
def smallPieces : List Piece :=
  ["group", "setting", "g"].map (fun w => .plain w.toList) ++ [.quoted "A group".toList] ++
  ["element", "e"].map (fun w => .plain w.toList) ++ [.quoted "An element".toList] ++
  ["type", "int32", "max", "(1", "+", "2)"].map (fun w => .plain w.toList)

theorem small_layout (gap : List Char) (hne : gap ≠ [])
    (hgap : ∀ c ∈ gap, Text.isBlank c = true) :
    Token.Layout smallPieces (String.ofList (Token.spaced gap smallPieces)).toList := by
  rw [String.toList_ofList]
  exact Token.layout_spaced hne hgap (by decide)

attribute [local instance] Text.Pattern.compiler in
theorem readsTo_layout_iff_small :
    ∃ s', ReadsTo {} (String.ofList (Token.spaced [' '] smallPieces)) s' ∧
      ReadsTo {} (String.ofList (Token.spaced ['\n', '\t'] smallPieces)) s' := by
  have hreads : reads {} (String.ofList (Token.spaced [' '] smallPieces)) = true := by
    decide +kernel
  obtain ⟨s', h⟩ := exists_readsTo hreads
  have hlayout := small_layout [' '] (by decide) (List.all_eq_true.mp (by decide))
  have hlayout' := small_layout ['\n', '\t'] (by decide) (List.all_eq_true.mp (by decide))
  exact ⟨s', h, (readsTo_layout_iff hlayout hlayout').mp h⟩

end DeviceSchema.Statement
