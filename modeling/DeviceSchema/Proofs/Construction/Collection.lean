import DeviceSchema.Proofs.Construction.Element
import DeviceSchema.Statement.Collection

/-! # How collections are built

Clauses **fill** a draft of a collection (`Filled`): most change what the collection
says of itself (`DraftStep`), the others add an element or a list that was built.  A
list is built by opening it, filling its own draft and settling it, so one relation
describes lists at every depth, and an induction over it reaches the whole tree below
a group.  The body of a group is filled at depth zero.

`listClauses_filled` and `groupClauses_filled` say that readings do nothing else, however
deep the lists nest and however many clauses there are.
-/
namespace DeviceSchema.Statement
open Reading

/-- What a group or a list is known to be when it is opened. -/
structure OpenedHead (scope : Scope) (head : Head) : Prop where
  info : Opened scope head.info
  instances_pos : ∀ n, head.instances = some n → 0 < n
  keys : head.keys = none
  capacity : head.capacity = none

/-- The collection of a draft, with the access in force taken over. -/
def ListDraft.inherited (d : ListDraft) : Collection :=
  { d.collection with
    head := { d.collection.head with info := d.collection.head.info.inheritAccess d.access } }

/-- What a clause that adds no item does to the draft of the collection at `here`. -/
inductive DraftStep (scope : Scope) (here : Path) : ListDraft → ListDraft → Prop
  | capacity {c : Collection} {access : Access} (capacity : Capacity) :
      DraftStep scope here ⟨c, access⟩ ⟨{ c with head := c.head.declareCapacity capacity }, access⟩
  | keys {c : Collection} {access : Access} :
      DraftStep scope here ⟨c, access⟩ ⟨{ c with head := c.head.declareKeys [] }, access⟩
  | access {c : Collection} {outer : Access} (access : Access) (h : c.head.info.access = none) :
      DraftStep scope here ⟨c, outer⟩
        ⟨{ c with head := { c.head with info := { c.head.info with access := some access } } },
          access⟩
  | condition {c : Collection} {access : Access} {info : Info} (condition : Condition)
      (hc : condition ∈ scope.conditions) (h : c.head.info.attach condition here = .ok () info) :
      DraftStep scope here ⟨c, access⟩ ⟨{ c with head := { c.head with info } }, access⟩

/-- What any number of clauses make of the draft of the collection at `here`, which is
the `depth`-th list from its group, and of the session. -/
inductive Filled (scope : Scope) :
    Path → Nat → ListDraft → Session → ListDraft → Session → Prop
  | done {here depth d s} : Filled scope here depth d s d s
  | draft {here depth d d₁ s d' s'} (step : DraftStep scope here d d₁)
      (rest : Filled scope here depth d₁ s d' s') : Filled scope here depth d s d' s'
  | element {here depth d s e s₁ c d' s'} (built : ElementBuilt scope d.access here s e s₁)
      (hadd : d.collection.add (.element e) = .ok () c)
      (rest : Filled scope here depth { d with collection := c } s₁ d' s') :
      Filled scope here depth d s d' s'
  | list {here depth d s head d₁ s₁ l c d' s'} (hopen : OpenedHead scope head)
      (hdepth : depth + 1 ≤ Ceiling.listDepth)
      (body : Filled scope (here.child head.info.name) (depth + 1) ⟨{ head }, d.access⟩
        ((s.note (·.noteListDepth (depth + 1))).note
          (·.noteCollectionName head.info.name.length)) d₁ s₁)
      (hsettle : d₁.inherited.settle scope.limits = (.ok (), l))
      (hadd : d.collection.add (.ofCollection l) = .ok () c)
      (rest : Filled scope here depth { d with collection := c }
        ((s₁.note (·.noteCollection l.head false)).note (·.noteType .list)) d' s') :
      Filled scope here depth d s d' s'

/-! ## What collections keep -/

section Keeping

theorem keeps_adding {γ : Type} {view : Session → γ} {c : Collection} {item : Item} :
    Keeps view (adding c item) := keeps_taking

theorem keeps_attaching {γ : Type} {view : Session → γ} {c : Collection} {here : Path} :
    Keeps view (attaching c here) := keeps_attachment.bind fun _ => keeps_pure

theorem keeps_accessClause {γ : Type} {view : Session → γ} {d : ListDraft} :
    Keeps view (accessClause d) :=
  keeps_access.bind fun _ => keeps_taking.bind fun _ => keeps_pure

/-- What follows a head that may have a count is kept if it is for every head. -/
theorem keeps_head {α γ : Type} {view : Session → γ} {count : Option Int} {info : Info}
    {rest : Head → Reading α} (h : ∀ head, Keeps view (rest head)) :
    Keeps view (headed count info rest) := by
  cases count with
  | none => exact keeps_pure.bind h
  | some count => exact keeps_taking.bind h

theorem keeps_openList {access : Access} {parent : Path} {outer : Nat} :
    Keeps Session.registries (openList access parent outer) := by
  refine keeps_line.bind fun opened => keeps_name.bind fun name =>
    keeps_instances?.bind fun count => ?_
  dsimp only
  split
  · exact keeps_failIn.bind fun _ => keeps_note.bind fun _ => keeps_label?.bind fun _ =>
      keeps_help?.bind fun _ => keeps_taking.bind fun _ => keeps_note.bind fun _ =>
      keeps_head fun _ => keeps_pure
  · exact keeps_note.bind fun _ => keeps_label?.bind fun _ =>
      keeps_help?.bind fun _ => keeps_taking.bind fun _ => keeps_note.bind fun _ =>
      keeps_head fun _ => keeps_pure

theorem keeps_closeList {place : ListPlace} {d : ListDraft} :
    Keeps Session.registries (closeList place d) :=
  keeps_limits.bind fun _ => keeps_closing.bind fun _ => keeps_note.bind fun _ =>
    keeps_note.bind fun _ => keeps_pure

theorem keeps_list {clauses : ListPlace → ListDraft → Reading ListDraft} {access : Access}
    {parent : Path} {outer : Nat} (h : ∀ place d, Keeps Session.registries (clauses place d)) :
    Keeps Session.registries (list clauses access parent outer) :=
  keeps_openList.bind fun _ => (h _ _).bind fun _ => keeps_closeList

theorem keeps_listClauses [PatternCompiler] {bound : Nat} {place : ListPlace} {d : ListDraft} :
    Keeps Session.registries (listClauses bound place d) := by
  induction bound generalizing place d with
  | zero => exact keeps_pure
  | succ bound ih =>
    refine keeps_token?.bind fun token => ?_
    cases token with
    | none => exact keeps_pure
    | some token =>
      dsimp only
      split
      · exact keeps_capacity.bind fun _ => ih
      · exact keeps_keys.bind fun _ => ih
      · exact keeps_accessClause.bind fun _ => ih
      · exact keeps_element.bind fun _ => keeps_adding.bind fun _ => ih
      · exact (keeps_list fun _ _ => ih).bind fun _ => keeps_adding.bind fun _ => ih
      · exact keeps_attaching.bind fun _ => ih
      · exact keeps_pure
      · exact keeps_dropLine.bind fun _ => ih
      · exact keeps_failWithin

theorem keeps_errorClause {γ : Type} {view : Session → γ} {g : Group} :
    Keeps view (errorClause g) :=
  keeps_name.bind fun _ => keeps_description?.bind fun _ => keeps_taking

theorem keeps_groupClauses [PatternCompiler] {place : GroupPlace} {bound : Nat} {g : Group} :
    Keeps Session.registries (groupClauses place bound g) := by
  induction bound generalizing g with
  | zero => exact keeps_pure
  | succ bound ih =>
    refine keeps_token?.bind fun token => ?_
    cases token with
    | none => exact keeps_pure
    | some token =>
      dsimp only
      split
      · exact keeps_capacity.bind fun _ => ih
      · exact keeps_keys.bind fun _ => ih
      · exact keeps_attaching.bind fun _ => ih
      · exact keeps_element.bind fun _ => keeps_adding.bind fun _ => ih
      · exact (keeps_list fun _ _ => keeps_listClauses).bind fun _ =>
          keeps_adding.bind fun _ => ih
      · exact keeps_errorClause.bind fun _ => ih
      · exact keeps_pure
      · exact keeps_dropLine.bind fun _ => ih
      · exact keeps_handBack.bind fun _ => keeps_pure

theorem keeps_openGroup : Keeps Session.registries openGroup := by
  refine keeps_line.bind fun opened => keeps_tokenText.bind fun word => ?_
  dsimp only
  split
  · exact keeps_name.bind fun _ => keeps_instances?.bind fun _ => keeps_label?.bind fun _ =>
      keeps_help?.bind fun _ => keeps_taking.bind fun _ => keeps_note.bind fun _ =>
      keeps_head fun _ => keeps_pure
  · exact keeps_failAt

end Keeping

/-! ## Readings fill collections -/

section Filling
variable {scope : Scope} {p q : Progress}

theorem head_ok {α : Type} {count : Option Int} {info : Info} {rest : Head → Reading α} {a : α}
    (hopen : Opened scope info)
    (h : headed count info rest p = .ok a q) :
    ∃ head, OpenedHead scope head ∧ head.info = info ∧ rest head p = .ok a q := by
  cases count with
  | none =>
    obtain ⟨head, p₁, h₁, h⟩ := bind_ok.mp h
    obtain ⟨rfl, rfl⟩ := pure_ok.mp h₁
    exact ⟨_, ⟨hopen, by simp, rfl, rfl⟩, rfl, h⟩
  | some count =>
    obtain ⟨head, p₁, h₁, h⟩ := bind_ok.mp h
    obtain ⟨hd, rfl⟩ := changing_ok.mp h₁
    obtain ⟨hpos, rfl⟩ := Head.declareInstances_ok_iff.mp hd
    exact ⟨_, ⟨hopen, by simpa using hpos, rfl, rfl⟩, rfl, h⟩

theorem openList_ok {access : Access} {parent : Path} {outer : Nat}
    {opening : ListPlace × ListDraft} (hscope : p.session.scope parent.table = scope)
    (h : openList access parent outer p = .ok opening q) :
    ∃ head opened, OpenedHead scope head ∧ outer + 1 ≤ Ceiling.listDepth ∧
      opening = (⟨opened, parent.child head.info.name, outer + 1⟩, ⟨{ head }, access⟩) ∧
      q.session = (p.session.note (·.noteListDepth (outer + 1))).note
        (·.noteCollectionName head.info.name.length) := by
  obtain ⟨opened, p₁, h₁, h⟩ := bind_ok.mp h
  obtain ⟨name, p₂, h₂, h⟩ := bind_ok.mp h
  obtain ⟨count, p₃, h₃, h⟩ := bind_ok.mp h
  have hs₁ : p₁.session = p.session := keeps_line.session h₁
  have hs₃ : p₃.session = p.session :=
    (keeps_instances?.session h₃).trans ((keeps_name.session h₂).trans hs₁)
  dsimp only at h
  split at h
  · cases h
  · obtain ⟨u₄, p₄, h₄, h⟩ := bind_ok.mp h
    obtain ⟨label, p₅, h₅, h⟩ := bind_ok.mp h
    obtain ⟨help, p₆, h₆, h⟩ := bind_ok.mp h
    obtain ⟨info, p₇, h₇, h⟩ := bind_ok.mp h
    obtain ⟨u₈, p₈, h₈, h⟩ := bind_ok.mp h
    obtain ⟨hi, hp₇⟩ := taking_ok.mp h₇
    obtain ⟨hopen, hname⟩ := opened_of_ok (hs₁ ▸ hscope) h₂ h₅ hi
    obtain ⟨head, hhead, hinfo, h⟩ := head_ok hopen h
    obtain ⟨rfl, rfl⟩ := pure_ok.mp h
    refine ⟨head, opened, hhead, by omega, by rw [hinfo, hname], ?_⟩
    rw [note_ok h₈, ← hp₇, keeps_help?.session h₆, keeps_label?.session h₅, note_ok h₄, hs₃,
      hinfo, hname]

theorem closeList_ok {place : ListPlace} {d : ListDraft} {c : Collection}
    (h : closeList place d p = .ok c q) :
    d.inherited.settle p.session.limits = (.ok (), c) ∧
      q.session = (p.session.note (·.noteCollection c.head false)).note (·.noteType .list) := by
  obtain ⟨limits, p₁, h₁, h⟩ := bind_ok.mp h
  obtain ⟨rfl, rfl⟩ := limits_ok h₁
  obtain ⟨u₂, p₂, h₂, h⟩ := bind_ok.mp h
  obtain ⟨u₃, p₃, h₃, h⟩ := bind_ok.mp h
  obtain ⟨u₄, p₄, h₄, h⟩ := bind_ok.mp h
  obtain ⟨hresult, hp₂⟩ := closing_ok.mp h₂
  obtain ⟨rfl, rfl⟩ := pure_ok.mp h
  exact ⟨Prod.ext hresult rfl, by rw [note_ok h₄, note_ok h₃, hp₂]⟩

theorem attaching_ok {c c' : Collection} {here : Path}
    (hscope : p.session.scope here.table = scope) (h : attaching c here p = .ok c' q) :
    ∃ info, (∃ condition ∈ scope.conditions, c.head.info.attach condition here = .ok () info) ∧
      c' = { c with head := { c.head with info } } := by
  obtain ⟨info, p₁, h₁, h⟩ := bind_ok.mp h
  obtain ⟨rfl, rfl⟩ := pure_ok.mp h
  exact ⟨info, hscope ▸ attachment_ok h₁, rfl⟩

theorem accessClause_step {here : Path} {d d' : ListDraft} (h : accessClause d p = .ok d' q) :
    DraftStep scope here d d' := by
  obtain ⟨access, p₁, -, hnone, h⟩ := declaring_ok h
  obtain ⟨rfl, rfl⟩ := pure_ok.mp h
  exact .access access hnone

/-- A reading that keeps the registries stays in its scope. -/
theorem scope_ok {α : Type} {m : Reading α} {a : α} {kind : TableKind}
    (hm : Keeps Session.registries m) (hscope : p.session.scope kind = scope)
    (h : m p = .ok a q) : q.session.scope kind = scope :=
  (Session.scope_eq_of_registries (hm.ok h) kind).trans hscope

/-- A list that is read and then added fills the collection, if its own clauses are read
so that they fill it. -/
theorem list_filled {clauses : ListPlace → ListDraft → Reading ListDraft} {here : Path}
    {depth : Nat} {d d' : ListDraft} {l c : Collection} {s' : Session}
    (hkeeps : ∀ place d, Keeps Session.registries (clauses place d))
    (hfilled : ∀ {place d d'} {p q : Progress}, p.session.scope place.here.table = scope →
      clauses place d p = .ok d' q →
        Filled scope place.here place.depth d p.session d' q.session)
    (hscope : p.session.scope here.table = scope)
    (h : list clauses d.access here depth p = .ok l q)
    (hadd : d.collection.add (.ofCollection l) = .ok () c)
    (hrest : Filled scope here depth { d with collection := c } q.session d' s') :
    Filled scope here depth d p.session d' s' := by
  obtain ⟨opening, p₁, h₁, h⟩ := bind_ok.mp h
  obtain ⟨d₂, p₂, h₂, h⟩ := bind_ok.mp h
  have hscope₁ := scope_ok keeps_openList hscope h₁
  obtain ⟨head, opened, hhead, hdepth, rfl, hs₁⟩ := openList_ok hscope h₁
  have hbody := hfilled hscope₁ h₂
  have hlimits : p₂.session.limits = scope.limits :=
    congrArg Scope.limits (scope_ok (hkeeps _ _) hscope₁ h₂)
  obtain ⟨hsettle, hs⟩ := closeList_ok h
  rw [hs₁] at hbody
  rw [hlimits] at hsettle
  rw [hs] at hrest
  exact .list hhead hdepth hbody hsettle hadd hrest

theorem listClauses_filled [PatternCompiler] {bound : Nat} {place : ListPlace} {d d' : ListDraft}
    (hscope : p.session.scope place.here.table = scope)
    (h : listClauses bound place d p = .ok d' q) :
    Filled scope place.here place.depth d p.session d' q.session := by
  -- The bound covers the clauses of the lists below as well, so one induction serves both.
  induction bound generalizing place d d' p q with
  | zero =>
    obtain ⟨rfl, rfl⟩ := pure_ok.mp h
    exact .done
  | succ bound ih =>
    obtain ⟨token, p₁, h₁, h⟩ := bind_ok.mp h
    have hs₁ : p₁.session = p.session := keeps_token?.session h₁
    rw [← hs₁] at hscope ⊢
    cases token with
    | none =>
      obtain ⟨rfl, rfl⟩ := pure_ok.mp h
      exact .done
    | some token =>
      dsimp only at h
      cases hlead : Lead.ofToken listKeywords token with
      | comment =>
        rw [hlead] at h
        obtain ⟨u, p₂, h₂, h⟩ := bind_ok.mp h
        rw [← keeps_dropLine.session h₂] at hscope ⊢
        exact ih hscope h
      | other =>
        rw [hlead] at h
        cases h
      | clause kind =>
        rw [hlead] at h
        cases kind with
        | capacity =>
          obtain ⟨capacity, p₂, h₂, h⟩ := bind_ok.mp h
          rw [← keeps_capacity.session h₂] at hscope ⊢
          exact .draft (.capacity capacity) (ih hscope h)
        | keys =>
          obtain ⟨found, p₂, h₂, h⟩ := bind_ok.mp h
          obtain rfl := keys_ok h₂
          rw [← keeps_keys.session h₂] at hscope ⊢
          exact .draft .keys (ih hscope h)
        | access =>
          obtain ⟨d₂, p₂, h₂, h⟩ := bind_ok.mp h
          rw [← keeps_accessClause.session h₂] at hscope ⊢
          exact .draft (accessClause_step h₂) (ih hscope h)
        | element =>
          obtain ⟨e, p₂, h₂, h⟩ := bind_ok.mp h
          obtain ⟨c, p₃, h₃, h⟩ := bind_ok.mp h
          obtain ⟨hadd, rfl⟩ := changing_ok.mp h₃
          exact .element (element_built hscope h₂) hadd (ih (scope_ok keeps_element hscope h₂) h)
        | list =>
          obtain ⟨l, p₂, h₂, h⟩ := bind_ok.mp h
          obtain ⟨c, p₃, h₃, h⟩ := bind_ok.mp h
          obtain ⟨hadd, rfl⟩ := changing_ok.mp h₃
          have hrest := ih (scope_ok (keeps_list fun _ _ => keeps_listClauses) hscope h₂) h
          exact list_filled (fun _ _ => keeps_listClauses) ih hscope h₂ hadd hrest
        | condition =>
          obtain ⟨c, p₂, h₂, h⟩ := bind_ok.mp h
          obtain ⟨info, ⟨condition, hc, ha⟩, rfl⟩ := attaching_ok hscope h₂
          rw [← keeps_attaching.session h₂] at hscope ⊢
          exact .draft (.condition condition hc ha) (ih hscope h)
        | stop =>
          obtain ⟨rfl, rfl⟩ := pure_ok.mp h
          exact .done

theorem errorClause_ok {g g' : Group} (h : errorClause g p = .ok g' q) : g'.body = g.body := by
  obtain ⟨name, p₁, h₁, h⟩ := bind_ok.mp h
  obtain ⟨description, p₂, h₂, h⟩ := bind_ok.mp h
  obtain ⟨text, -, -, rfl⟩ := Group.addError_ok_iff.mp (changing_ok.mp h).1
  rfl

theorem groupClauses_filled [PatternCompiler] {bound : Nat} {place : GroupPlace} {g g' : Group}
    (hscope : p.session.scope place.here.table = scope)
    (h : groupClauses place bound g p = .ok g' q) :
    Filled scope place.here 0 ⟨g.body, place.here.table.defaultAccess⟩ p.session
      ⟨g'.body, place.here.table.defaultAccess⟩ q.session := by
  induction bound generalizing g g' p q with
  | zero =>
    obtain ⟨rfl, rfl⟩ := pure_ok.mp h
    exact .done
  | succ bound ih =>
    obtain ⟨token, p₁, h₁, h⟩ := bind_ok.mp h
    have hs₁ : p₁.session = p.session := keeps_token?.session h₁
    rw [← hs₁] at hscope ⊢
    cases token with
    | none =>
      obtain ⟨rfl, rfl⟩ := pure_ok.mp h
      exact .done
    | some token =>
      dsimp only at h
      cases hlead : Lead.ofToken groupKeywords token with
      | comment =>
        rw [hlead] at h
        obtain ⟨u, p₂, h₂, h⟩ := bind_ok.mp h
        rw [← keeps_dropLine.session h₂] at hscope ⊢
        exact ih hscope h
      | other =>
        -- The word begins the next statement, so it goes back to the stream.
        rw [hlead] at h
        obtain ⟨u, p₂, h₂, h⟩ := bind_ok.mp h
        obtain ⟨rfl, rfl⟩ := pure_ok.mp h
        rw [keeps_handBack.session h₂]
        exact .done
      | clause kind =>
        rw [hlead] at h
        cases kind with
        | capacity =>
          obtain ⟨capacity, p₂, h₂, h⟩ := bind_ok.mp h
          rw [← keeps_capacity.session h₂] at hscope ⊢
          exact .draft (.capacity capacity) (ih hscope h)
        | keys =>
          obtain ⟨found, p₂, h₂, h⟩ := bind_ok.mp h
          obtain rfl := keys_ok h₂
          rw [← keeps_keys.session h₂] at hscope ⊢
          exact .draft .keys (ih hscope h)
        | condition =>
          obtain ⟨c, p₂, h₂, h⟩ := bind_ok.mp h
          obtain ⟨info, ⟨condition, hc, ha⟩, rfl⟩ := attaching_ok hscope h₂
          rw [← keeps_attaching.session h₂] at hscope ⊢
          exact .draft (.condition condition hc ha) (ih hscope h)
        | element =>
          obtain ⟨e, p₂, h₂, h⟩ := bind_ok.mp h
          obtain ⟨c, p₃, h₃, h⟩ := bind_ok.mp h
          obtain ⟨hadd, rfl⟩ := changing_ok.mp h₃
          exact .element (element_built hscope h₂) hadd (ih (scope_ok keeps_element hscope h₂) h)
        | list =>
          obtain ⟨l, p₂, h₂, h⟩ := bind_ok.mp h
          obtain ⟨c, p₃, h₃, h⟩ := bind_ok.mp h
          obtain ⟨hadd, rfl⟩ := changing_ok.mp h₃
          have hrest := ih (scope_ok (keeps_list fun _ _ => keeps_listClauses) hscope h₂) h
          exact list_filled (fun _ _ => keeps_listClauses) listClauses_filled hscope h₂ hadd hrest
        | error =>
          obtain ⟨g₂, p₂, h₂, h⟩ := bind_ok.mp h
          rw [← keeps_errorClause.session h₂] at hscope ⊢
          rw [← errorClause_ok h₂]
          exact ih hscope h
        | stop =>
          obtain ⟨rfl, rfl⟩ := pure_ok.mp h
          exact .done

end Filling
end DeviceSchema.Statement
