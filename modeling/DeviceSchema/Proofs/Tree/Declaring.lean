import DeviceSchema.Proofs.Tree.Building

/-! # Declaring an element

An element is declared by calls in any order: its type, bounds, default, units, access, condition
and pattern, and its members and references one by one.  `Element.perform` is the change that a
call makes, and `Performed` says what each call needs and what it does.  All that follows is read
off these rules, and off `atomic_perform`: a call that is refused has changed nothing.

Type, default, units, access and condition are declared once and **last** from then on, and so do
bounds unless they are computed (`Lasting`, `LastingBounds`).  The members and the references of
an element have different names, and only elements of a fitting type have any (`Coherent`).
`ofCalls_disciplined` states this for all calls.
-/
namespace DeviceSchema.Element

/-- The calls by which an element is declared. -/
inductive Call where
  | type (text : String)
  | min (text : String)
  | max (text : String)
  | default (text : String)
  | units (text : String)
  | pattern (text : String)
  | caseRule (rule : CaseRule)
  | wording (text : String)
  | value (info : Info)
  | reference (info : Info)
  /-- Sets the bounds that follow from the references. -/
  | range (min max : Nat)
  | access (access : Access)
  | inheritAccess (access : Access)
  | condition (condition : Condition) (here : Path)

/-- The member that a call adds. -/
def Call.value? : Call → Option Info
  | .value info => some info
  | _ => none

/-- The reference that a call adds. -/
def Call.reference? : Call → Option Info
  | .reference info => some info
  | _ => none

/-- A change of what the element says of itself. -/
def onInfo (change : Changing Info Unit) : Changing Element Unit :=
  change.within Element.info fun info e => { e with info }

/-- The change that a call makes. -/
def perform [PatternCompiler] : Call → Changing Element Unit
  | .type text => declareType text
  | .min text => declareMin text
  | .max text => declareMax text
  | .default text => declareDefault text
  | .units text => declareUnits text
  | .pattern text => declarePattern text
  | .caseRule rule => modify (·.declareCase rule)
  | .wording text => modify (·.declareWording text)
  | .value info => addValue info
  | .reference info => addReference info
  | .range min max => modify (·.withRange min max)
  | .access access => onInfo (Info.declareAccess access)
  | .inheritAccess access => onInfo (modify (·.inheritAccess access))
  | .condition condition here => onInfo (Info.attach condition here)

/-- What an accepted call needs and what it does. -/
inductive Performed [PatternCompiler] (e : Element) : Call → Element → Prop
  | type {text : String} {type : ValueType} (hnone : e.type = none)
      (htext : ValueType.ofText text = .ok type) :
      Performed e (.type text) { e with type := some type }
  | min {text : String} (hnone : e.min = none) :
      Performed e (.min text) { e with min := some text }
  | max {text : String} (hnone : e.max = none) :
      Performed e (.max text) { e with max := some text }
  | default {text : String} (hnone : e.default = none) :
      Performed e (.default text) { e with default := some text }
  | units {text : String} (hnone : e.units = none) :
      Performed e (.units text) { e with units := some text }
  | pattern {text : String} (hcompiles : PatternCompiler.compile text = .ok ()) :
      Performed e (.pattern text) { e with rule := { e.rule with pattern := some text } }
  | caseRule {rule : CaseRule} :
      Performed e (.caseRule rule) { e with rule := { e.rule with caseRule := some rule } }
  | wording {text : String} :
      Performed e (.wording text) { e with rule := { e.rule with wording := some text } }
  | value {info : Info} (htype : e.type = some .enum ∨ e.type = some .refEnum)
      (hnew : ∀ v ∈ e.values, v.name ≠ info.name) :
      Performed e (.value info) { e with values := e.values ++ [info] }
  | reference {info : Info} (htype : e.type = some .refEnum)
      (hnew : ∀ r ∈ e.references, r.name ≠ info.name) :
      Performed e (.reference info) { e with references := e.references ++ [info] }
  | range {min max : Nat} :
      Performed e (.range min max) { e with min := some (toString min), max := some (toString max) }
  | access {access : Access} (hnone : e.info.access = none) :
      Performed e (.access access) { e with info := { e.info with access := some access } }
  | inheritAccess {access : Access} :
      Performed e (.inheritAccess access)
        { e with info := { e.info with access := some (e.info.access.getD access) } }
  | condition {condition : Condition} {here : Path} {reference : String}
      (hnone : e.info.condition = none)
      (hreference : condition.source.relativeTo here = .ok reference) :
      Performed e (.condition condition here) { e with info := { e.info with
        condition := some ⟨condition.name, reference, condition.predicate⟩ } }

section Step
variable {e e' : Element} {call : Call}

theorem onInfo_ok_iff {change : Changing Info Unit} : onInfo change e = .ok () e' ↔
    ∃ info, change e.info = .ok () info ∧ e' = { e with info } := Changing.within_ok

theorem atomic_onInfo {change : Changing Info Unit} (h : Atomic change) : Atomic (onInfo change) :=
  h.within fun _ => rfl

variable [PatternCompiler]

/-- What is accepted may be performed. -/
theorem Performed.of_ok (h : e.perform call = .ok () e') : Performed e call e' := by
  cases call with
  | type text =>
    obtain ⟨hnone, type, htext, rfl⟩ := declareType_ok_iff.mp h
    exact .type hnone htext
  | min text =>
    obtain ⟨hnone, rfl⟩ := declareMin_ok_iff.mp h
    exact .min hnone
  | max text =>
    obtain ⟨hnone, rfl⟩ := declareMax_ok_iff.mp h
    exact .max hnone
  | default text =>
    obtain ⟨hnone, rfl⟩ := declareDefault_ok_iff.mp h
    exact .default hnone
  | units text =>
    obtain ⟨hnone, rfl⟩ := declareUnits_ok_iff.mp h
    exact .units hnone
  | pattern text =>
    obtain ⟨hcompiles, rfl⟩ := declarePattern_ok_iff.mp h
    exact .pattern hcompiles
  | caseRule rule =>
    cases h
    exact .caseRule
  | wording text =>
    cases h
    exact .wording
  | value info =>
    obtain ⟨htype, hnew, rfl⟩ := addValue_ok_iff.mp h
    exact .value htype hnew
  | reference info =>
    obtain ⟨htype, hnew, rfl⟩ := addReference_ok_iff.mp h
    exact .reference htype hnew
  | range min max =>
    cases h
    exact .range
  | access access =>
    obtain ⟨info, hinfo, rfl⟩ := onInfo_ok_iff.mp h
    obtain ⟨hnone, rfl⟩ := Info.declareAccess_ok_iff.mp hinfo
    exact .access hnone
  | inheritAccess access =>
    cases h
    exact .inheritAccess
  | condition condition here =>
    obtain ⟨info, hinfo, rfl⟩ := onInfo_ok_iff.mp h
    obtain ⟨hnone, reference, hreference, rfl⟩ := Info.attach_ok_iff.mp hinfo
    exact .condition hnone hreference

/-- What may be performed is accepted. -/
theorem Performed.ok (h : Performed e call e') : e.perform call = .ok () e' := by
  cases h with
  | type hnone htext => exact declareType_ok_iff.mpr ⟨hnone, _, htext, rfl⟩
  | min hnone => exact declareMin_ok_iff.mpr ⟨hnone, rfl⟩
  | max hnone => exact declareMax_ok_iff.mpr ⟨hnone, rfl⟩
  | default hnone => exact declareDefault_ok_iff.mpr ⟨hnone, rfl⟩
  | units hnone => exact declareUnits_ok_iff.mpr ⟨hnone, rfl⟩
  | pattern hcompiles => exact declarePattern_ok_iff.mpr ⟨hcompiles, rfl⟩
  | value htype hnew => exact addValue_ok_iff.mpr ⟨htype, hnew, rfl⟩
  | reference htype hnew => exact addReference_ok_iff.mpr ⟨htype, hnew, rfl⟩
  | access hnone =>
    exact onInfo_ok_iff.mpr ⟨_, Info.declareAccess_ok_iff.mpr ⟨hnone, rfl⟩, rfl⟩
  | condition hnone hreference =>
    exact onInfo_ok_iff.mpr ⟨_, Info.attach_ok_iff.mpr ⟨hnone, _, hreference, rfl⟩, rfl⟩
  | caseRule | wording | range | inheritAccess => rfl

/-- **A call is accepted if and only if it may be performed.** -/
theorem perform_ok_iff : e.perform call = .ok () e' ↔ Performed e call e' :=
  ⟨Performed.of_ok, Performed.ok⟩

/-- **No call is refused halfway.** -/
theorem atomic_perform (call : Call) : Atomic (perform call) := by
  cases call with
  | type => exact atomic_declareType
  | min => exact atomic_declareMin
  | max => exact atomic_declareMax
  | default => exact atomic_declareDefault
  | units => exact atomic_declareUnits
  | pattern => exact atomic_declarePattern
  | value => exact atomic_addValue
  | reference => exact atomic_addReference
  | access => exact atomic_onInfo Info.atomic_declareAccess
  | condition => exact atomic_onInfo Info.atomic_attach
  | inheritAccess => exact atomic_onInfo .modify
  | caseRule | wording | range => exact .modify

end Step

section Lasting
variable {e e' e'' : Element} {call : Call}

/-- What can be declared once is what it was in `e`, if it was declared there. -/
structure Lasting (e e' : Element) : Prop where
  type : ∀ type, e.type = some type → e'.type = some type
  default : ∀ text, e.default = some text → e'.default = some text
  units : ∀ text, e.units = some text → e'.units = some text
  access : ∀ access, e.info.access = some access → e'.info.access = some access
  condition : ∀ condition, e.info.condition = some condition → e'.info.condition = some condition

/-- The bounds are what they were in `e`, if they were declared there. -/
structure LastingBounds (e e' : Element) : Prop where
  min : ∀ text, e.min = some text → e'.min = some text
  max : ∀ text, e.max = some text → e'.max = some text

theorem Lasting.refl (e : Element) : Lasting e e :=
  ⟨fun _ h => h, fun _ h => h, fun _ h => h, fun _ h => h, fun _ h => h⟩

theorem Lasting.trans (h : Lasting e e') (h' : Lasting e' e'') : Lasting e e'' where
  type _ ht := h'.type _ (h.type _ ht)
  default _ hd := h'.default _ (h.default _ hd)
  units _ hu := h'.units _ (h.units _ hu)
  access _ ha := h'.access _ (h.access _ ha)
  condition _ hc := h'.condition _ (h.condition _ hc)

theorem LastingBounds.refl (e : Element) : LastingBounds e e := ⟨fun _ h => h, fun _ h => h⟩

theorem LastingBounds.trans (h : LastingBounds e e') (h' : LastingBounds e' e'') :
    LastingBounds e e'' where
  min _ hm := h'.min _ (h.min _ hm)
  max _ hm := h'.max _ (h.max _ hm)

/-- **What can be declared once lasts.** -/
theorem Performed.lasting [PatternCompiler] (h : Performed e call e') : Lasting e e' := by
  cases h with
  | type hnone => exact { Lasting.refl e with type := fun _ h => absurd h (by simp [hnone]) }
  | default hnone => exact { Lasting.refl e with default := fun _ h => absurd h (by simp [hnone]) }
  | units hnone => exact { Lasting.refl e with units := fun _ h => absurd h (by simp [hnone]) }
  | access hnone => exact { Lasting.refl e with access := fun _ h => absurd h (by simp [hnone]) }
  | inheritAccess => exact { Lasting.refl e with access := fun _ h => by simp [h] }
  | condition hnone =>
    exact { Lasting.refl e with condition := fun _ h => absurd h (by simp [hnone]) }
  | min | max | pattern | caseRule | wording | value | reference | range =>
    exact { Lasting.refl e with }

/-- **Bounds last unless they are computed.** -/
theorem Performed.lastingBounds [PatternCompiler] (h : Performed e call e')
    (hcall : ∀ min max, call ≠ .range min max) : LastingBounds e e' := by
  cases h with
  | min hnone => exact { LastingBounds.refl e with min := fun _ h => absurd h (by simp [hnone]) }
  | max hnone => exact { LastingBounds.refl e with max := fun _ h => absurd h (by simp [hnone]) }
  | @range min max => exact absurd rfl (hcall min max)
  | type | default | units | pattern | caseRule | wording | value | reference | access
  | inheritAccess | condition => exact { LastingBounds.refl e with }

end Lasting

section Members
variable {e e' : Element} {call : Call}

/-- Members and references have different names, and the element is of a type that has them. -/
structure Coherent (e : Element) : Prop where
  values_nodup : (e.values.map Info.name).Nodup
  references_nodup : (e.references.map Info.name).Nodup
  values_type : e.values ≠ [] → e.type = some .enum ∨ e.type = some .refEnum
  references_type : e.references ≠ [] → e.type = some .refEnum

/-- An accepted call appends the member and the reference that it adds, if any. -/
theorem Performed.members [PatternCompiler] (h : Performed e call e') :
    e'.values = e.values ++ call.value?.toList ∧
      e'.references = e.references ++ call.reference?.toList := by
  cases h <;> simp [Call.value?, Call.reference?]

/-- The type lasts, so that what it admits stays admitted. -/
theorem Coherent.of_same (h : Coherent e) (htype : Lasting e e') (hvalues : e'.values = e.values)
    (hreferences : e'.references = e.references) : Coherent e' where
  values_nodup := hvalues ▸ h.values_nodup
  references_nodup := hreferences ▸ h.references_nodup
  values_type hne := by
    rcases h.values_type (hvalues ▸ hne) with henum | hrefEnum
    · exact .inl (htype.type _ henum)
    · exact .inr (htype.type _ hrefEnum)
  references_type hne := htype.type _ (h.references_type (hreferences ▸ hne))

/-- **Every call keeps an element coherent.** -/
theorem Performed.coherent [PatternCompiler] (h : Performed e call e') (he : Coherent e) :
    Coherent e' := by
  have hlasting := h.lasting
  cases h with
  | value htype hnew =>
    exact { he with
      values_nodup := nodup_keys_append he.values_nodup hnew
      values_type := fun _ => htype }
  | reference htype hnew =>
    exact { he with
      references_nodup := nodup_keys_append he.references_nodup hnew
      references_type := fun _ => htype }
  | type | min | max | default | units | pattern | caseRule | wording | range | access
  | inheritAccess | condition => exact he.of_same hlasting rfl rfl

end Members

section Runs
variable [PatternCompiler]

/-- The element behind some calls, those that were refused among them. -/
def ofCalls (info : Info) (calls : List Call) : Element := offerAll perform { info } calls

/-- What holds of an element whatever calls it was declared by. -/
structure Disciplined (info : Info) (calls : List Call) : Prop where
  /-- One more call is accepted if it may be performed, and then does just that. -/
  performed : ∀ call e, (ofCalls info calls).perform call = .ok () e ↔
    Performed (ofCalls info calls) call e
  /-- A refused call changes nothing, and may as well not have been made. -/
  refused : ∀ before call after defect e, calls = before ++ call :: after →
    (ofCalls info before).perform call = .error defect e →
    e = ofCalls info before ∧ ofCalls info calls = ofCalls info (before ++ after)
  lasting : ∀ before after, calls = before ++ after →
    Lasting (ofCalls info before) (ofCalls info calls)
  bounds : ∀ before after, calls = before ++ after →
    (∀ call ∈ after, ∀ min max, call ≠ .range min max) →
    LastingBounds (ofCalls info before) (ofCalls info calls)
  /-- The members stand in the order in which they were added. -/
  values : (ofCalls info calls).values = (accepted perform { info } calls).filterMap Call.value?
  references : (ofCalls info calls).references =
    (accepted perform { info } calls).filterMap Call.reference?
  coherent : Coherent (ofCalls info calls)

/-- **However an element is declared, what it says once it says for good, and its members fit
it.** -/
theorem ofCalls_disciplined (info : Info) (calls : List Call) : Disciplined info calls where
  performed _ _ := perform_ok_iff
  refused := by
    rintro before call after defect e rfl h
    exact offerAll_refused atomic_perform h
  lasting := by
    rintro before after rfl
    have hstep (e call e') (_ : call ∈ after) (h : perform call e = .ok () e') : Lasting e e' :=
      (perform_ok_iff.mp h).lasting
    rw [ofCalls, ofCalls, offerAll_append]
    exact offerAll_related atomic_perform Lasting.refl Lasting.trans hstep _
  bounds := by
    rintro before after rfl hafter
    have hstep (e call e') (hcall : call ∈ after) (h : perform call e = .ok () e') :
        LastingBounds e e' :=
      (perform_ok_iff.mp h).lastingBounds (hafter call hcall)
    rw [ofCalls, ofCalls, offerAll_append]
    exact offerAll_related atomic_perform LastingBounds.refl LastingBounds.trans hstep _
  values := by
    have hstep (e call e') (h : perform call e = .ok () e') :
        e'.values = e.values ++ call.value?.toList :=
      (perform_ok_iff.mp h).members.1
    exact offerAll_appends atomic_perform hstep { info } calls
  references := by
    have hstep (e call e') (h : perform call e = .ok () e') :
        e'.references = e.references ++ call.reference?.toList :=
      (perform_ok_iff.mp h).members.2
    exact offerAll_appends atomic_perform hstep { info } calls
  coherent := by
    have hstep (e call e') (_ : call ∈ calls) (h : perform call e = .ok () e') :
        Coherent e → Coherent e' :=
      (perform_ok_iff.mp h).coherent
    exact offerAll_keeps atomic_perform hstep
      ⟨.nil, .nil, fun hne => absurd rfl hne, fun hne => absurd rfl hne⟩

end Runs
end DeviceSchema.Element
