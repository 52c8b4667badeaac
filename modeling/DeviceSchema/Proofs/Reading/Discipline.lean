import DeviceSchema.Proofs.Reading.Orderly
import DeviceSchema.Proofs.Tree.Changes
import DeviceSchema.Proofs.Tree.Defects

/-! # The steps of reading are orderly

What every statement is made of is orderly: names, texts, descriptions, counts and values.
Steps that leave the stream alone are still, so far as their failures are not internal; a
condition that is attached comes from the table of the node, and there it belongs to its
source.
-/
namespace DeviceSchema

namespace Session
variable {s t : Session} {kind : TableKind} {table : Table}

theorem AtHome.of_table (h : s.AtHome) (ht : ∀ kind, t.table kind = s.table kind) : t.AtHome := by
  intro kind c hc
  exact h kind c (ht kind ▸ hc)

/-- A table may be replaced by one whose conditions belong to it. -/
theorem AtHome.withTable (h : s.AtHome) (ht : ∀ c ∈ table.conditions, c.source.table = kind) :
    (s.withTable kind table).AtHome := by
  intro other c hc
  by_cases hkind : other = kind
  · subst hkind
    rw [withTable_table] at hc
    exact ht c hc
  · rw [withTable_table_ne hkind] at hc
    exact h other c hc

theorem atHome_ofLimits (limits : Limits) : (ofLimits limits).AtHome := by
  intro kind c hc
  cases kind <;> cases hc

end Session

/-- A change within a table fails for no internal reason. -/
theorem WithinTable.not_isInternal {α : Type} {defect : Defect}
    (h : WithinTable (.error defect : Except Defect α)) :
    ¬ (Statement.Cause.defect defect).IsInternal := by
  rintro ⟨⟩
  exact h rfl

namespace Statement.Reading
variable {α β : Type}

/-! ## Still steps -/

section Still

theorem still_pure {a : α} : Still (pure a : Reading α) := ⟨fun _ => rfl, fun _ h => h⟩

theorem still_line : Still line := ⟨fun _ => rfl, fun _ h => h⟩

theorem still_limits : Still limits := ⟨fun _ => rfl, fun _ h => h⟩

theorem still_look {view : Token.Stream → α} : Still (look view) := ⟨fun _ => rfl, fun _ h => h⟩

theorem still_tell {event : Event} : Still (tell event) := ⟨fun _ => rfl, fun _ h => h⟩

theorem still_fail {cause : Cause} (h : ¬ cause.IsInternal) : Still (fail cause : Reading α) :=
  ⟨fun _ => rfl, fun _ _ => h⟩

theorem still_failAt {line : Nat} {cause : Cause} (h : ¬ cause.IsInternal) :
    Still (failAt line cause : Reading α) := ⟨fun _ => rfl, fun _ _ => h⟩

theorem still_failWithin {construct : Construct} {line : Nat} {cause : Cause}
    (h : ¬ cause.IsInternal) : Still (failWithin construct line cause : Reading α) :=
  ⟨fun _ => rfl, fun _ _ => h⟩

theorem still_failIn {construct : Construct} {name : String} {line : Nat} {cause : Cause}
    (h : ¬ cause.IsInternal) : Still (failIn construct name line cause : Reading α) :=
  ⟨fun _ => rfl, fun _ _ => h⟩

theorem still_taking {result : Except Defect α} (h : WithinTable result) :
    Still (taking result) := by
  cases result with
  | ok value => exact still_pure
  | error defect => exact still_fail h.not_isInternal

theorem still_closing {construct : Construct} {name : String} {line : Nat}
    {result : Except Defect α} (h : WithinTable result) :
    Still (closing construct name line result) := by
  cases result with
  | ok value => exact still_pure
  | error defect => exact still_failIn h.not_isInternal

theorem still_onSession {change : Session → Session}
    (h : ∀ s kind, (change s).table kind = s.table kind) : Still (onSession change) :=
  ⟨fun _ => rfl, fun p hp => hp.of_table (h p.session)⟩

theorem still_note {change : Statistics → Statistics} : Still (note change) :=
  still_onSession fun _ kind => by cases kind <;> rfl

/-- What is taken from the session may depend on where its conditions belong. -/
theorem still_session_taking {f : Session → Except Defect α}
    (h : ∀ s, s.AtHome → WithinTable (f s)) : Still (session >>= fun s => taking (f s)) := by
  constructor
  · intro p
    show (after (taking (f p.session)) p).stream = p.stream
    cases f p.session <;> rfl
  · intro p hp
    exact (still_taking (h p.session hp)).atHome p hp

theorem still_extending {change : Changing Session Unit} (h : StaysWithin change)
    (hhome : ∀ s s', s.AtHome → change s = .ok () s' → s'.AtHome) : Still (extending change) := by
  constructor
  · intro p
    unfold after extending
    cases change p.session <;> rfl
  · intro p hp
    have hwithin := h p.session
    unfold extending
    cases hs : change p.session with
    | ok _ s => exact hhome p.session s hp hs
    | error defect s =>
      rw [hs] at hwithin
      exact hwithin.not_isInternal

end Still

/-! ## Orderly steps -/

section Orderly
variable {held : Option Token}

/-- What follows a still step may be shown to be orderly by itself. -/
theorem Still.then {m : Reading α} {f : α → Reading β} (h : Still m)
    (hf : ∀ a, Orderly none (f a)) : Orderly held (m >>= f) := (Orderly.still h).bind hf

theorem orderly_pure {a : α} : Orderly held (pure a : Reading α) := .still still_pure

theorem orderly_fail {cause : Cause} (h : ¬ cause.IsInternal) :
    Orderly held (fail cause : Reading α) := .still (still_fail h)

theorem orderly_failWithin {construct : Construct} {line : Nat} {cause : Cause}
    (h : ¬ cause.IsInternal) : Orderly held (failWithin construct line cause : Reading α) :=
  .still (still_failWithin h)

/-- Whatever would follow a failure is not read. -/
theorem orderly_failIn_bind {construct : Construct} {name : String} {line : Nat} {cause : Cause}
    {f : α → Reading β} (h : ¬ cause.IsInternal) :
    Orderly held (failIn construct name line cause >>= f) :=
  .still ⟨fun _ => rfl, fun _ _ => h⟩

theorem orderly_taking {result : Except Defect α} (h : WithinTable result) :
    Orderly held (taking result) := .still (still_taking h)

theorem orderly_changing {σ : Type} {change : Changing σ Unit} {s : σ} (h : StaysWithin change) :
    Orderly held (changing (change s)) := orderly_taking (h s)

/-- A token on which something depends, and a failure where there is none. -/
theorem orderly_token {f : Option Token → Reading α} (hnone : Still (f none))
    (hf : ∀ t, Orderly (some t) (f (some t))) : Orderly held (token? >>= f) := by
  refine .token fun token => ?_
  cases token with
  | none => exact .still hnone
  | some t => exact hf t

theorem orderly_tokenText : Orderly held tokenText := .token fun _ => orderly_pure

theorem orderly_expression : Orderly held expression := by
  refine .bind .expression fun result => ?_
  cases result with
  | ok value => exact orderly_pure
  | error failure => exact orderly_fail nofun

/-- Both kinds of names are read in this way. -/
theorem orderly_anyName {ofMember : Bool} {tooLong : Nat → Cause} {malformed : String → Cause}
    (hlong : ∀ most, ¬ (tooLong most).IsInternal)
    (hmalformed : ∀ text, ¬ (malformed text).IsInternal) :
    Orderly held (anyName ofMember tooLong malformed) := by
  refine still_line.then fun before => orderly_token (still_failAt nofun) fun token => ?_
  refine still_limits.then fun limits => ?_
  dsimp only
  split
  · exact orderly_fail (hlong _)
  · split
    · exact orderly_fail (hmalformed _)
    · exact orderly_pure

theorem orderly_name : Orderly held name := orderly_anyName (fun _ => nofun) fun _ => nofun

theorem orderly_memberName : Orderly held memberName :=
  orderly_anyName (fun _ => nofun) fun _ => nofun

theorem orderly_text? : Orderly held text? := by
  refine still_look.then fun quoted => ?_
  split
  · exact .quoted
  · exact .token fun _ => orderly_pure

theorem orderly_text {missing : Cause} (h : ¬ missing.IsInternal) :
    Orderly held (text missing) := by
  refine orderly_text?.bind fun text => ?_
  cases text with
  | none => exact orderly_fail h
  | some text => exact orderly_pure

theorem orderly_description? {wording : Wording} : Orderly held (description? wording) := by
  refine still_look.then fun quoted => ?_
  split
  · exact orderly_pure
  · refine .bind .quoted fun text => ?_
    cases text with
    | none => exact orderly_fail nofun
    | some text =>
      dsimp only
      split
      · exact orderly_fail nofun
      · exact orderly_pure

theorem orderly_label? : Orderly held label? := by
  refine orderly_description?.bind fun text => ?_
  cases text with
  | none => exact orderly_pure
  | some text =>
    dsimp only
    split
    · exact orderly_fail nofun
    · exact orderly_pure

theorem orderly_help? : Orderly held help? := orderly_description?

/-- A count is read only where it was seen. -/
theorem orderly_instances? : Orderly held instances? := by
  refine .integer (fun count => orderly_pure) (fun fault => ⟨_, rfl⟩) ?_
  refine still_look.then fun opening => ?_
  split
  · exact orderly_expression.bind fun _ => orderly_pure
  · exact orderly_pure

theorem orderly_access : Orderly held access :=
  still_line.then fun before =>
    orderly_token (still_failAt nofun) fun token => orderly_taking (withinTable_word (by simp))

theorem orderly_bound : Orderly held bound := by
  refine still_look.then fun opening => ?_
  split
  · exact orderly_expression.bind fun _ => orderly_pure
  · exact orderly_token (still_fail nofun) fun token => orderly_pure

theorem orderly_caseRule : Orderly held caseRule := by
  refine (orderly_text (by nofun)).bind fun text => ?_
  split
  · exact orderly_pure
  · exact orderly_fail nofun

theorem orderly_capacity {construct : Construct} {opened : Nat} :
    Orderly held (capacity construct opened) := by
  refine orderly_tokenText.bind fun text => ?_
  split
  · exact orderly_pure
  · exact orderly_failWithin nofun

theorem orderly_keys {construct : Construct} {opened : Nat} :
    Orderly held (keys construct opened) := by
  refine orderly_tokenText.bind fun text => ?_
  split
  · exact orderly_pure
  · exact orderly_failWithin nofun

theorem orderly_referencePath : Orderly held referencePath := by
  refine (orderly_text (by nofun)).bind fun path => ?_
  split
  · repeat' split
    · exact orderly_fail nofun
    · exact orderly_fail nofun
    · exact orderly_pure
  · exact orderly_fail nofun

/-- A condition that a node can name belongs to the table of the node. -/
theorem orderly_attachment {info : Info} {here : Path} : Orderly held (attachment info here) := by
  refine orderly_name.bind fun name => ?_
  simp only [taking_bind_taking]
  refine .still (still_session_taking fun s hs => ?_)
  cases hfound : (s.table here.table).condition name with
  | error defect =>
    have hcondition : WithinTable ((s.table here.table).condition name) :=
      Table.withinTable_condition
    rw [hfound] at hcondition
    simpa [Bind.bind, Except.bind] using hcondition
  | ok condition =>
    exact Info.staysWithin_attach (hs _ condition (Table.condition_ok hfound)) info

end Orderly
end Statement.Reading
end DeviceSchema
