import DeviceSchema.Proofs.Construction.Element
import DeviceSchema.Proofs.Lockstep.Steps

/-! # Elements and conditions in step

Readers alongside each other read the same elements and the same conditions.

One clause is an exception.  A bound is read as a token, also where a text in quotes
begins; the reader is then inside the text, and what it sees depends on the layout.  Such
an element is **spoiled**: its bound begins with a quote, no clause takes that back, and
it does not pass its check (`Spoiled.check_ne_ok`).
-/
namespace DeviceSchema.Statement
open Token (Piece)

namespace Reading
variable {α : Type}

section Element
variable {here : Path} {opened opened' : Nat}

/-- A bound of the element begins with a quote. -/
def Spoiled (e : Element) : Prop :=
  ∃ text : String, (e.min = some text ∨ e.max = some text) ∧ text.toList.head? = some '"'

theorem inStep_member {name : String} {add : Info → EStateM.Result Defect Element Unit} :
    InStep Eq (member name add) (member name add) :=
  inStep_note.next fun _ => inStep_label?.next fun _ => inStep_help?.next fun _ =>
    inStep_taking.next fun _ => inStep_taking

theorem inStep_typeClause {e : Element} : InStep Eq (typeClause opened e) (typeClause opened' e) := by
  refine inStep_token? refuses_failAt.inStep fun token token' htext _ => ?_
  dsimp only
  rw [htext]
  refine .ahead (inStep_taking.next fun declared => ?_) fun hquote p a q hrun => ?_
  · cases declared.type with
    | none => exact inStep_pure rfl
    | some type => exact inStep_note.next fun _ => inStep_pure rfl
  · obtain ⟨declared, r, hr, -⟩ := bind_ok.mp hrun
    obtain ⟨-, type, htype, -⟩ := Element.declareType_ok_iff.mp (changing_ok.mp hr).1
    have hnone : ValueType.ofWord? token.text = none := find?_word_quote (by decide) hquote
    rw [ValueType.ofText, hnone] at htype
    cases htype

theorem inStep_valueClause {e : Element} : InStep Eq (valueClause e) (valueClause e) := by
  refine inStep_taking.next fun type => ?_
  dsimp only
  split
  · exact inStep_memberName.next fun _ => inStep_member
  · exact inStep_text.next fun _ => inStep_member

theorem inStep_referenceClause {e : Element} :
    InStep Eq (referenceClause e) (referenceClause e) :=
  inStep_referencePath.next fun _ => inStep_member

/-- A bound that was declared stays. -/
theorem elementClause_spoiled [PatternCompiler] {e e' : Element} {kind : ElementClause}
    {p q : Progress}
    (h : elementClause opened here e kind p = .ok e' q) (he : Spoiled e) : Spoiled e' := by
  cases kind with
  | type =>
    obtain ⟨token, p₁, -, h⟩ := bind_ok.mp h
    cases token with
    | none => cases h
    | some token =>
      obtain ⟨declared, p₂, h₂, h⟩ := bind_ok.mp h
      obtain ⟨-, type, -, rfl⟩ := Element.declareType_ok_iff.mp (changing_ok.mp h₂).1
      obtain ⟨u, p₃, -, h⟩ := bind_ok.mp h
      obtain ⟨rfl, -⟩ := pure_ok.mp h
      exact he
  | access =>
    obtain ⟨access, p₁, -, h⟩ := bind_ok.mp h
    obtain ⟨info, p₂, -, h⟩ := bind_ok.mp h
    obtain ⟨rfl, -⟩ := pure_ok.mp h
    exact he
  | min =>
    obtain ⟨value, p₁, -, h⟩ := bind_ok.mp h
    obtain ⟨hnone, rfl⟩ := Element.declareMin_ok_iff.mp (changing_ok.mp h).1
    obtain ⟨text, hbound, hquote⟩ := he
    exact ⟨text, .inr (hbound.resolve_left (by simp [hnone])), hquote⟩
  | max =>
    obtain ⟨value, p₁, -, h⟩ := bind_ok.mp h
    obtain ⟨hnone, rfl⟩ := Element.declareMax_ok_iff.mp (changing_ok.mp h).1
    obtain ⟨text, hbound, hquote⟩ := he
    exact ⟨text, .inl (hbound.resolve_right (by simp [hnone])), hquote⟩
  | default =>
    obtain ⟨value, p₁, -, h⟩ := bind_ok.mp h
    obtain ⟨-, rfl⟩ := Element.declareDefault_ok_iff.mp (changing_ok.mp h).1
    exact he
  | units =>
    obtain ⟨value, p₁, -, h⟩ := bind_ok.mp h
    obtain ⟨-, rfl⟩ := Element.declareUnits_ok_iff.mp (changing_ok.mp h).1
    exact he
  | pattern =>
    obtain ⟨value, p₁, -, h⟩ := bind_ok.mp h
    obtain ⟨-, rfl⟩ := Element.declarePattern_ok_iff.mp (changing_ok.mp h).1
    exact he
  | caseRule | wording | condition =>
    obtain ⟨value, p₁, -, h⟩ := bind_ok.mp h
    obtain ⟨rfl, -⟩ := pure_ok.mp h
    exact he
  | value =>
    obtain ⟨type, p₁, -, h⟩ := bind_ok.mp h
    split at h
    all_goals
      obtain ⟨name, p₂, -, h⟩ := bind_ok.mp h
      obtain ⟨-, value, -, ha⟩ := member_ok h
      obtain ⟨-, -, rfl⟩ := Element.addValue_ok_iff.mp ha
      exact he
  | reference =>
    obtain ⟨path, p₁, -, h⟩ := bind_ok.mp h
    obtain ⟨-, reference, -, ha⟩ := member_ok h
    obtain ⟨-, -, rfl⟩ := Element.addReference_ok_iff.mp ha
    exact he

theorem elementClauses_spoiled [PatternCompiler] {e e' : Element} {count : Nat} {p q : Progress}
    (h : elementClauses opened here count e p = .ok e' q) (he : Spoiled e) : Spoiled e' := by
  induction count generalizing e p with
  | zero =>
    obtain ⟨rfl, -⟩ := pure_ok.mp h
    exact he
  | succ count ih =>
    obtain ⟨token, p₁, -, h⟩ := bind_ok.mp h
    cases token with
    | none =>
      obtain ⟨rfl, -⟩ := pure_ok.mp h
      exact he
    | some token =>
      dsimp only at h
      cases hlead : Lead.ofToken elementKeywords token with
      | clause kind =>
        rw [hlead] at h
        obtain ⟨e₁, p₂, h₂, h⟩ := bind_ok.mp h
        exact ih h (elementClause_spoiled h₂ he)
      | comment =>
        rw [hlead] at h
        obtain ⟨u, p₂, -, h⟩ := bind_ok.mp h
        exact ih h he
      | other =>
        rw [hlead] at h
        obtain ⟨u, p₂, -, h⟩ := bind_ok.mp h
        obtain ⟨rfl, -⟩ := pure_ok.mp h
        exact he

theorem integerOfText?_quote {text : String} (h : text.toList.head? = some '"') :
    integerOfText? text = none := by
  obtain ⟨rest, hrest⟩ : ∃ rest, text.toList = '"' :: rest := List.head?_eq_some_iff.mp h
  rw [integerOfText?, hrest]
  rfl

theorem realOfText?_quote {text : String} (h : text.toList.head? = some '"') :
    Text.Real.ofText? text.toList = none := by
  obtain ⟨rest, hrest⟩ : ∃ rest, text.toList = '"' :: rest := List.head?_eq_some_iff.mp h
  have hword : ¬ ((String.ofList ('"' :: rest)).toLower = "inf" ∨
      (String.ofList ('"' :: rest)).toLower = "infinity") := by
    have hhead : (String.ofList ('"' :: rest)).toList.head? = some '"' := by simp
    rintro (hinf | hinf)
    · exact ne_toLower_of_quote hhead (by decide) hinf
    · exact ne_toLower_of_quote hhead (by decide) hinf
  rw [hrest]
  show Text.Real.magnitude? ('"' :: rest) = none
  rw [Text.Real.magnitude?, if_neg hword]
  rfl

/-- An element with a bound that begins with a quote does not pass its check. -/
theorem Spoiled.check_ne_ok {e : Element} (he : Spoiled e) : e.check ≠ .ok () := by
  obtain ⟨text, hbound, hquote⟩ := he
  intro hcheck
  rcases Element.bound_of_check hcheck hbound with ⟨value, hvalue⟩ | ⟨-, units, hunits⟩
  · rw [integerOfText?_quote hquote] at hvalue
    cases hvalue
  · rw [realOfText?_quote hquote] at hunits
    cases hunits

theorem InStepOr.of_inStep {E : α → Prop} {R : α → α → Prop} {m₁ m₂ : Reading α}
    (h : InStep R m₁ m₂) : InStepOr E R m₁ m₂ :=
  fun ps p₁ p₂ a q₁ hp hrun => .inr ((h ps p₁ p₂ a q₁ hp hrun).resolve_left id)

theorem inStep_elementClause [PatternCompiler] {e : Element} (kind : ElementClause) :
    InStepOr Spoiled Eq (elementClause opened here e kind) (elementClause opened' here e kind) := by
  cases kind with
  | type => exact .of_inStep inStep_typeClause
  | access =>
    exact .of_inStep (inStep_access.next fun _ => inStep_taking.next fun _ => inStep_pure rfl)
  | min =>
    refine inStep_bound.bind_or (fun text text' htext => ?_) fun text hquote p e' q hrun => ?_
    · subst htext
      exact .of_inStep inStep_taking
    · obtain ⟨-, rfl⟩ := Element.declareMin_ok_iff.mp (changing_ok.mp hrun).1
      exact ⟨text, .inl rfl, hquote⟩
  | max =>
    refine inStep_bound.bind_or (fun text text' htext => ?_) fun text hquote p e' q hrun => ?_
    · subst htext
      exact .of_inStep inStep_taking
    · obtain ⟨-, rfl⟩ := Element.declareMax_ok_iff.mp (changing_ok.mp hrun).1
      exact ⟨text, .inr rfl, hquote⟩
  | default | units | pattern => exact .of_inStep (inStep_text.next fun _ => inStep_taking)
  | caseRule => exact .of_inStep (inStep_caseRule.next fun _ => inStep_pure rfl)
  | wording => exact .of_inStep (inStep_text.next fun _ => inStep_pure rfl)
  | value => exact .of_inStep inStep_valueClause
  | reference => exact .of_inStep inStep_referenceClause
  | condition => exact .of_inStep (inStep_attachment.next fun _ => inStep_pure rfl)

theorem inStep_elementClauses [PatternCompiler] {e : Element} {count : Nat} :
    InStepOr Spoiled Eq (elementClauses opened here count e)
      (elementClauses opened' here count e) := by
  induction count generalizing e with
  | zero => exact inStep_pure rfl
  | succ count ih =>
    refine inStep_token? (inStep_pure rfl) fun token token' htext hhash => ?_
    dsimp only
    rw [ofToken_congr htext]
    cases hlead : Lead.ofToken elementKeywords token with
    | clause kind =>
      refine .ahead ?_ fun hquote => ?_
      · refine (inStep_elementClause kind).bind_or (fun e₁ e₂ he => ?_) fun e₁ he p e₂ q hrun => ?_
        · subst he
          exact ih
        · exact elementClauses_spoiled hrun he
      · rw [ofToken_quote (by decide) hquote] at hlead
        cases hlead
    | comment => exact absurd (ofToken_comment hlead) hhash
    | other => exact .back rfl rfl rfl

/-- A spoiled element fails at its check, so what is read as an element is read alike. -/
theorem inStep_element [PatternCompiler] {count : Nat} {access : Access} {parent : Path} :
    InStep Eq (element count access parent) (element count access parent) := by
  refine inStep_line fun opened opened' => inStep_name.next fun name => inStep_label?.next fun label =>
    inStep_help?.next fun help => inStep_taking.next fun info => inStep_note.next fun _ => ?_
  refine inStep_elementClauses.bind_or (fun e e' he => ?_) fun e he p e' q hrun => ?_
  · subst he
    refine inStep_closing.next fun _ => ?_
    dsimp only
    split
    · exact inStep_onSession.next fun _ => inStep_tell.next fun _ => inStep_pure rfl
    · exact inStep_tell.next fun _ => inStep_pure rfl
  · obtain ⟨u, r, hr, -⟩ := bind_ok.mp hrun
    obtain ⟨hcheck, -⟩ := closing_ok.mp hr
    exact Spoiled.check_ne_ok (e := { e with info := e.info.inheritAccess access }) he hcheck

theorem inStep_conditionClause {d : ConditionDraft} (kind : ConditionClause) :
    InStep Eq (conditionClause d kind) (conditionClause d kind) := by
  cases kind with
  | source | pattern | value => exact inStep_text?.next fun _ => inStep_pure rfl
  | operation | caseRule =>
    exact inStep_text?.next fun _ => inStep_taking.next fun _ => inStep_pure rfl

theorem inStep_conditionClauses {d : ConditionDraft} {count : Nat} :
    InStep Eq (conditionClauses count d) (conditionClauses count d) := by
  induction count generalizing d with
  | zero => exact inStep_pure rfl
  | succ count ih =>
    refine inStep_token? (inStep_pure rfl) fun token token' htext hhash => ?_
    dsimp only
    rw [ofToken_congr htext]
    cases hlead : Lead.ofToken conditionKeywords token with
    | clause kind =>
      refine .ahead ((inStep_conditionClause kind).next fun _ => ih) fun hquote => ?_
      rw [ofToken_quote (by decide) hquote] at hlead
      cases hlead
    | comment => exact absurd (ofToken_comment hlead) hhash
    | other => exact .back rfl rfl rfl

theorem inStep_required {part : Part} {text : Option String} :
    InStep Eq (required opened part text) (required opened' part text) := by
  cases text with
  | none => exact refuses_failWithin.inStep
  | some text => exact inStep_pure rfl

theorem inStep_condition {count : Nat} : InStep Eq (condition count) (condition count) := by
  refine inStep_line fun opened opened' => inStep_name.next fun name =>
    inStep_conditionClauses.next fun d => inStep_required.next fun source =>
    inStep_taking.next fun source => ?_
  have hpredicate : InStep Eq (predicate opened d) (predicate opened' d) := by
    unfold predicate
    split
    · exact inStep_required.next fun _ => inStep_pure rfl
    · exact inStep_required.next fun _ => inStep_pure rfl
  exact hpredicate.next fun _ => inStep_extending.next fun _ => inStep_tell

end Element

end Reading
end DeviceSchema.Statement
