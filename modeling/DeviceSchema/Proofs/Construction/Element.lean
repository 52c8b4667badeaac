import Mathlib.Logic.Relation
import DeviceSchema.Proofs.Reading.Values
import DeviceSchema.Statement.Element

/-! # How elements are built

What a reading does to the tree is said here without tokens.  While a group is read,
the limits and the conditions of its table do not move; they are the **scope** of the
statement.  What moves is the item being built, and the statistics and the index of
`ref_enum` elements in the session.

A clause makes one step of an element and a session (`ElementStep`), and an element
is **built** when it was opened, its clauses made their steps and it passed its check
(`ElementBuilt`).  `element_built` says that this is all a reading can do; whatever
the steps preserve holds of every element that is read.
-/
namespace DeviceSchema

/-- What the statements of a group can refer to. -/
structure Scope where
  limits : Limits
  conditions : List Condition

/-- The scope of the statements about one table. -/
def Session.scope (s : Session) (kind : TableKind) : Scope := ⟨s.limits, (s.table kind).conditions⟩

/-- All of a session that only a whole statement extends: everything but the
statistics and the index of `ref_enum` elements. -/
def Session.registries (s : Session) : Limits × Table × Table × Catalogs :=
  (s.limits, s.setting, s.state, s.catalogs)

@[simp] theorem Session.note_registries (s : Session) (change : Statistics → Statistics) :
    (s.note change).registries = s.registries := rfl

@[simp] theorem Session.note_table (s : Session) (change : Statistics → Statistics)
    (kind : TableKind) : (s.note change).table kind = s.table kind := by
  cases kind <;> rfl

theorem Session.table_eq_of_registries {s t : Session} (h : s.registries = t.registries)
    (kind : TableKind) : s.table kind = t.table kind := by
  simp only [registries, Prod.mk.injEq] at h
  cases kind with
  | setting => exact h.2.1
  | state => exact h.2.2.1

theorem Session.scope_eq_of_registries {s t : Session} (h : s.registries = t.registries)
    (kind : TableKind) : s.scope kind = t.scope kind := by
  have hl : s.limits = t.limits := (Prod.mk.inj h).1
  rw [scope, scope, hl, table_eq_of_registries h kind]

theorem Session.withTable_registries {s s' : Session} (h : s.registries = s'.registries)
    (kind : TableKind) (t : Table) :
    (s.withTable kind t).registries = (s'.withTable kind t).registries := by
  simp only [registries, Prod.mk.injEq] at h
  obtain ⟨hlimits, hsetting, hstate, hcatalogs⟩ := h
  cases kind <;> simp [registries, withTable, hlimits, hsetting, hstate, hcatalogs]

namespace Statement
open Reading

/-- What a group, a list or an element says of itself when it is opened: a name that
the limits allow, a label and perhaps a help text. -/
structure Opened (scope : Scope) (info : Info) : Prop where
  name_length : info.name.length ≤ scope.limits.nameLength
  name_form : isName false info.name.toList = true
  name_free : Info.isReserved info.name = false
  label : IsLabel info.description
  access : info.access = none
  condition : info.condition = none

/-- What one clause does to the element at `here` and to the session. -/
inductive ElementStep (scope : Scope) (here : Path) :
    Element × Session → Element × Session → Prop
  | type {e s} (type : ValueType) (h : e.type = none) :
      ElementStep scope here (e, s) ({ e with type := some type }, s.note (·.noteType type))
  | access {e s} (access : Access) (h : e.info.access = none) :
      ElementStep scope here (e, s) ({ e with info := { e.info with access := some access } }, s)
  | detail {e e' s} (h : e.Alike e') : ElementStep scope here (e, s) (e', s)
  | value {e s} (value : Info) :
      ElementStep scope here (e, s)
        ({ e with values := e.values ++ [value] }, s.note (·.noteMemberName value.name.length))
  | reference {e s} (reference : Info) :
      ElementStep scope here (e, s)
        ({ e with references := e.references ++ [reference] },
          s.note (·.noteMemberName reference.name.length))
  | condition {e s info} (condition : Condition) (hc : condition ∈ scope.conditions)
      (h : e.info.attach condition here = .ok () info) :
      ElementStep scope here (e, s) ({ e with info }, s)

/-- The steps of any number of clauses. -/
abbrev ElementSteps (scope : Scope) (here : Path) :
    Element × Session → Element × Session → Prop :=
  Relation.ReflTransGen (ElementStep scope here)

/-- An element that was opened, has gone through its clauses, has taken over the access
in force where it stands and has passed its check. -/
structure ElementBuilt (scope : Scope) (access : Access) (parent : Path) (s : Session)
    (e : Element) (s' : Session) : Prop where
  intro ::
  built : ∃ (info : Info) (draft : Element) (t : Session), Opened scope info ∧
    ElementSteps scope (parent.child info.name)
      ({ info }, s.note (·.noteElementName info.name.length)) (draft, t) ∧
    e = { draft with info := draft.info.inheritAccess access } ∧ e.check = .ok () ∧
    s' = if e.type = some .refEnum then t.noteRefEnum (parent.child info.name) else t

section Reading
variable {scope : Scope} {here : Path} {p q : Progress}

theorem note_ok {change : Statistics → Statistics} {u : Unit} (h : note change p = .ok u q) :
    q.session = p.session.note change := by
  rw [← onSession_ok.mp h]

theorem typeClause_step {opened : Nat} {e e' : Element} (h : typeClause opened e p = .ok e' q) :
    ElementStep scope here (e, p.session) (e', q.session) := by
  unfold typeClause at h
  obtain ⟨token, p₁, h₁, h⟩ := bind_ok.mp h
  have hs : p₁.session = p.session := keeps_token?.session h₁
  cases token with
  | none => cases h
  | some token =>
    obtain ⟨declared, p₂, h₂, h⟩ := bind_ok.mp h
    obtain ⟨hd, rfl⟩ := changing_ok.mp h₂
    obtain ⟨hnone, type, -, rfl⟩ := Element.declareType_ok_iff.mp hd
    obtain ⟨u, p₃, h₃, h⟩ := bind_ok.mp h
    obtain ⟨rfl, rfl⟩ := pure_ok.mp h
    rw [note_ok h₃, hs]
    exact .type type hnone

/-- The label and the help text of a member end the part of a clause that two kinds of
member have in common. -/
theorem member_ok {name : String} {add : Info → EStateM.Result Defect Element Unit} {e' : Element}
    (h : member name add p = .ok e' q) :
    q.session = p.session.note (·.noteMemberName name.length) ∧
      ∃ value : Info, value.name = name ∧ add value = .ok () e' := by
  obtain ⟨u, p₁, h₁, h⟩ := bind_ok.mp h
  obtain ⟨label, p₂, h₂, h⟩ := bind_ok.mp h
  obtain ⟨help, p₃, h₃, h⟩ := bind_ok.mp h
  obtain ⟨value, p₄, h₄, h⟩ := bind_ok.mp h
  obtain ⟨hm, rfl⟩ := taking_ok.mp h₄
  obtain ⟨ha, rfl⟩ := changing_ok.mp h
  obtain ⟨-, rfl⟩ := Info.ofMember_ok hm
  have hs : p₃.session = p₁.session :=
    (keeps_help?.session h₃).trans (keeps_label?.session h₂)
  exact ⟨hs.trans (note_ok h₁), _, rfl, ha⟩

theorem valueClause_step {e e' : Element} (h : valueClause e p = .ok e' q) :
    ElementStep scope here (e, p.session) (e', q.session) := by
  unfold valueClause at h
  obtain ⟨type, p₁, h₁, h⟩ := bind_ok.mp h
  obtain ⟨-, rfl⟩ := taking_ok.mp h₁
  split at h
  · obtain ⟨name, p₂, h₂, h⟩ := bind_ok.mp h
    obtain ⟨hq, value, rfl, ha⟩ := member_ok h
    obtain ⟨-, -, rfl⟩ := Element.addValue_ok_iff.mp ha
    rw [hq, keeps_memberName.session h₂]
    exact .value value
  · obtain ⟨name, p₂, h₂, h⟩ := bind_ok.mp h
    obtain ⟨hq, value, rfl, ha⟩ := member_ok h
    obtain ⟨-, -, rfl⟩ := Element.addValue_ok_iff.mp ha
    rw [hq, keeps_text.session h₂]
    exact .value value

theorem referenceClause_step {e e' : Element} (h : referenceClause e p = .ok e' q) :
    ElementStep scope here (e, p.session) (e', q.session) := by
  unfold referenceClause at h
  obtain ⟨path, p₁, h₁, h⟩ := bind_ok.mp h
  have hs : p₁.session = p.session := keeps_referencePath.session h₁
  obtain ⟨hq, reference, rfl, ha⟩ := member_ok h
  obtain ⟨-, -, rfl⟩ := Element.addReference_ok_iff.mp ha
  rw [hq, hs]
  exact .reference reference

/-- A clause that reads a value and declares it changes the element only. -/
theorem detail_step {α : Type} {m : Reading α} {declare : α → Changing Element Unit}
    {e e' : Element} (hm : Keeps id m)
    (hd : ∀ {a e'}, declare a e = .ok () e' → e.Alike e')
    (h : (m >>= fun a => changing (declare a e)) p = .ok e' q) :
    ElementStep scope here (e, p.session) (e', q.session) := by
  obtain ⟨a, p₁, h₁, h⟩ := bind_ok.mp h
  obtain ⟨ha, rfl⟩ := changing_ok.mp h
  rw [hm.session h₁]
  exact .detail (hd ha)

/-- An access is declared once. -/
theorem declaring_ok {α : Type} {info : Info} {f : Access → Info → Reading α} {a : α}
    (h : (do
      let access ← access
      let info ← changing (info.declareAccess access)
      f access info) p = .ok a q) :
    ∃ access r, Reading.access p = .ok access r ∧ info.access = none ∧
      f access { info with access := some access } r = .ok a q := by
  obtain ⟨access, r, haccess, h⟩ := bind_ok.mp h
  obtain ⟨info', r', htaking, h⟩ := bind_ok.mp h
  obtain ⟨hdeclare, rfl⟩ := changing_ok.mp htaking
  obtain ⟨hnone, rfl⟩ := Info.declareAccess_ok_iff.mp hdeclare
  exact ⟨access, r, haccess, hnone, h⟩

theorem elementClause_step [PatternCompiler] {opened : Nat} {e e' : Element} {kind : ElementClause}
    (hscope : p.session.scope here.table = scope)
    (h : elementClause opened here e kind p = .ok e' q) :
    ElementStep scope here (e, p.session) (e', q.session) := by
  cases kind with
  | type => exact typeClause_step h
  | access =>
    obtain ⟨access, p₁, h₁, hnone, h⟩ := declaring_ok h
    obtain ⟨rfl, rfl⟩ := pure_ok.mp h
    rw [keeps_access.session h₁]
    exact .access access hnone
  | min => exact detail_step keeps_bound Element.declareMin_alike h
  | max => exact detail_step keeps_bound Element.declareMax_alike h
  | default => exact detail_step keeps_text Element.declareDefault_alike h
  | units => exact detail_step keeps_text Element.declareUnits_alike h
  | pattern => exact detail_step keeps_text Element.declarePattern_alike h
  | caseRule =>
    obtain ⟨caseRule, p₁, h₁, h⟩ := bind_ok.mp h
    obtain ⟨rfl, rfl⟩ := pure_ok.mp h
    rw [keeps_caseRule.session h₁]
    exact .detail (e.declareCase_alike caseRule)
  | wording =>
    obtain ⟨wording, p₁, h₁, h⟩ := bind_ok.mp h
    obtain ⟨rfl, rfl⟩ := pure_ok.mp h
    rw [keeps_text.session h₁]
    exact .detail (e.declareWording_alike wording)
  | value => exact valueClause_step h
  | reference => exact referenceClause_step h
  | condition =>
    obtain ⟨info, p₁, h₁, h⟩ := bind_ok.mp h
    obtain ⟨condition, hc, ha⟩ := attachment_ok h₁
    obtain ⟨rfl, rfl⟩ := pure_ok.mp h
    rw [keeps_attachment.session h₁]
    exact .condition condition (hscope ▸ hc) ha

/-! A reading of an element, whether or not it fails, moves the statistics and the index
of `ref_enum` elements at most. -/

theorem keeps_note {change : Statistics → Statistics} :
    Keeps Session.registries (note change) := keeps_onSession fun _ => rfl

theorem keeps_noteRefEnum {path : Path} :
    Keeps Session.registries (onSession (·.noteRefEnum path)) := keeps_onSession fun _ => rfl

theorem keeps_typeClause {opened : Nat} {e : Element} :
    Keeps Session.registries (typeClause opened e) := by
  refine keeps_token?.bind fun token => ?_
  cases token with
  | none => exact keeps_failAt
  | some token =>
    refine keeps_taking.bind fun declared => ?_
    dsimp only
    split
    · exact keeps_note.bind fun _ => keeps_pure
    · exact keeps_pure

theorem keeps_member {name : String} {add : Info → EStateM.Result Defect Element Unit} :
    Keeps Session.registries (member name add) :=
  keeps_note.bind fun _ => keeps_label?.bind fun _ => keeps_help?.bind fun _ =>
    keeps_taking.bind fun _ => keeps_taking

theorem keeps_valueClause {e : Element} : Keeps Session.registries (valueClause e) := by
  refine keeps_taking.bind fun type => ?_
  dsimp only
  split
  · exact keeps_memberName.bind fun _ => keeps_member
  · exact keeps_text.bind fun _ => keeps_member

theorem keeps_referenceClause {e : Element} : Keeps Session.registries (referenceClause e) :=
  keeps_referencePath.bind fun _ => keeps_member

theorem keeps_elementClause [PatternCompiler] {opened : Nat} {e : Element} {kind : ElementClause} :
    Keeps Session.registries (elementClause opened here e kind) := by
  cases kind with
  | type => exact keeps_typeClause
  | access => exact keeps_access.bind fun _ => keeps_taking.bind fun _ => keeps_pure
  | min | max => exact keeps_bound.bind fun _ => keeps_taking
  | default | units | pattern => exact keeps_text.bind fun _ => keeps_taking
  | caseRule => exact keeps_caseRule.bind fun _ => keeps_pure
  | wording => exact keeps_text.bind fun _ => keeps_pure
  | value => exact keeps_valueClause
  | reference => exact keeps_referenceClause
  | condition => exact keeps_attachment.bind fun _ => keeps_pure

theorem keeps_elementClauses [PatternCompiler] {opened bound : Nat} {e : Element} :
    Keeps Session.registries (elementClauses opened here bound e) := by
  induction bound generalizing e with
  | zero => exact keeps_pure
  | succ bound ih =>
    refine keeps_token?.bind fun token => ?_
    cases token with
    | none => exact keeps_pure
    | some token =>
      dsimp only
      split
      · exact keeps_elementClause.bind fun _ => ih
      · exact keeps_dropLine.bind fun _ => ih
      · exact keeps_handBack.bind fun _ => keeps_pure

theorem keeps_element [PatternCompiler] {bound : Nat} {access : Access} {parent : Path} :
    Keeps Session.registries (element bound access parent) := by
  refine keeps_line.bind fun opened => keeps_name.bind fun name => keeps_label?.bind fun label =>
    keeps_help?.bind fun help => keeps_taking.bind fun info => keeps_note.bind fun _ =>
    keeps_elementClauses.bind fun e => keeps_closing.bind fun _ => ?_
  dsimp only
  split
  · exact keeps_noteRefEnum.bind fun _ => keeps_tell.bind fun _ => keeps_pure
  · exact keeps_tell.bind fun _ => keeps_pure

theorem elementClauses_steps [PatternCompiler] {opened bound : Nat} {e e' : Element}
    (hscope : p.session.scope here.table = scope)
    (h : elementClauses opened here bound e p = .ok e' q) :
    ElementSteps scope here (e, p.session) (e', q.session) := by
  induction bound generalizing e p with
  | zero =>
    obtain ⟨rfl, rfl⟩ := pure_ok.mp h
    exact .refl
  | succ bound ih =>
    obtain ⟨token, p₁, h₁, h⟩ := bind_ok.mp h
    have hs : p₁.session = p.session := keeps_token?.session h₁
    rw [← hs] at hscope ⊢
    cases token with
    | none =>
      obtain ⟨rfl, rfl⟩ := pure_ok.mp h
      exact .refl
    | some token =>
      dsimp only at h
      cases hlead : Lead.ofToken elementKeywords token with
      | clause kind =>
        rw [hlead] at h
        obtain ⟨e₂, p₂, h₂, h⟩ := bind_ok.mp h
        have hscope₂ : p₂.session.scope here.table = scope :=
          (Session.scope_eq_of_registries (keeps_elementClause.ok h₂) here.table).trans hscope
        exact .head (elementClause_step hscope h₂) (ih hscope₂ h)
      | comment =>
        rw [hlead] at h
        obtain ⟨u, p₂, h₂, h⟩ := bind_ok.mp h
        have hs₂ : p₂.session = p₁.session := keeps_dropLine.session h₂
        rw [← hs₂] at hscope ⊢
        exact ih hscope h
      | other =>
        rw [hlead] at h
        obtain ⟨u, p₂, h₂, h⟩ := bind_ok.mp h
        obtain ⟨rfl, rfl⟩ := pure_ok.mp h
        rw [keeps_handBack.session h₂]

/-- What stands between a keyword and the clauses makes an item that is opened. -/
theorem opened_of_ok {kind : TableKind} {name : String} {label help : Option String}
    {info : Info} {p₁ p₂ p₃ : Progress} (hscope : p.session.scope kind = scope)
    (hn : Reading.name p = .ok name p₁) (hl : label? p₂ = .ok label p₃)
    (hi : Info.ofItem name label help = .ok info) : Opened scope info ∧ info.name = name := by
  obtain ⟨hfree, text, rfl, rfl⟩ := Info.ofItem_ok hi
  obtain ⟨hlength, hform⟩ := name_ok hn
  subst hscope
  exact ⟨⟨hlength, hform, hfree, label?_ok hl, rfl, rfl⟩, rfl⟩

/-- **A reading of an element builds it.** -/
theorem element_built [PatternCompiler] {bound : Nat} {access : Access} {parent : Path}
    {e : Element} (hscope : p.session.scope parent.table = scope)
    (h : element bound access parent p = .ok e q) :
    ElementBuilt scope access parent p.session e q.session := by
  obtain ⟨opened, p₁, h₁, h⟩ := bind_ok.mp h
  obtain ⟨name, p₂, h₂, h⟩ := bind_ok.mp h
  obtain ⟨label, p₃, h₃, h⟩ := bind_ok.mp h
  obtain ⟨help, p₄, h₄, h⟩ := bind_ok.mp h
  obtain ⟨info, p₅, h₅, h⟩ := bind_ok.mp h
  obtain ⟨u₆, p₆, h₆, h⟩ := bind_ok.mp h
  obtain ⟨draft, p₇, h₇, h⟩ := bind_ok.mp h
  obtain ⟨u₈, p₈, h₈, h⟩ := bind_ok.mp h
  obtain ⟨hi, rfl⟩ := taking_ok.mp h₅
  obtain ⟨hcheck, rfl⟩ := closing_ok.mp h₈
  have hs₁ : p₁.session = p.session := keeps_line.session h₁
  have hs₄ : p₄.session = p.session :=
    ((keeps_help?.session h₄).trans (keeps_label?.session h₃)).trans
      ((keeps_name.session h₂).trans hs₁)
  obtain ⟨hopened, rfl⟩ := opened_of_ok (hs₁ ▸ hscope) h₂ h₃ hi
  have hs₆ : p₆.session = p.session.note (·.noteElementName info.name.length) := by
    rw [note_ok h₆, hs₄]
  have hscope₆ : p₆.session.scope (parent.child info.name).table = scope := by
    rw [hs₆]
    exact hscope
  have hsteps := elementClauses_steps hscope₆ h₇
  rw [hs₆] at hsteps
  refine ⟨info, draft, p₇.session, hopened, hsteps, ?_⟩
  dsimp only at h
  split at h
  · obtain ⟨u₉, p₉, h₉, h⟩ := bind_ok.mp h
    obtain ⟨v, r, hr, h⟩ := bind_ok.mp h
    obtain ⟨rfl, rfl⟩ := pure_ok.mp h
    refine ⟨rfl, hcheck, ?_⟩
    rw [if_pos ‹_›, keeps_tell.session hr, ← onSession_ok.mp h₉]
  · obtain ⟨v, r, hr, h⟩ := bind_ok.mp h
    obtain ⟨rfl, rfl⟩ := pure_ok.mp h
    refine ⟨rfl, hcheck, ?_⟩
    rw [if_neg ‹_›, keeps_tell.session hr]

end Reading
end Statement
end DeviceSchema
