import DeviceSchema.Proofs.Construction.Session
import DeviceSchema.Proofs.Reading.Discipline

/-! # Statements are orderly

Elements and groups end where a token begins no clause of theirs.  That token is on loan
while the loop looks at it, and it is handed back at once, so nothing waits when the reading
around goes on.  With the steps of reading being orderly, so are all clauses and all
statements, and with them the reading of a whole source (`orderly_statements`).  A source
therefore never fails for an internal reason, whatever its tokens are (`read_not_internal`).
-/
namespace DeviceSchema.Statement.Reading
variable {held : Option Token}

section Elements

theorem orderly_typeClause {opened : Nat} {e : Element} : Orderly held (typeClause opened e) := by
  refine orderly_token (still_failAt nofun) fun token => ?_
  refine (orderly_changing Element.staysWithin_declareType).bind fun declared => ?_
  dsimp only
  split
  · exact still_note.then fun _ => orderly_pure
  · exact orderly_pure

/-- What clauses about members have in common. -/
theorem orderly_member {name : String} {e : Element} {add : Info → Changing Element Unit}
    (h : ∀ member, StaysWithin (add member)) :
    Orderly held (member name fun info => add info e) :=
  still_note.then fun _ => orderly_label?.bind fun _ => orderly_help?.bind fun _ =>
    (orderly_taking Info.withinTable_ofMember).bind fun member => orderly_changing (h member)

theorem orderly_valueClause {e : Element} : Orderly held (valueClause e) := by
  refine (orderly_taking Element.withinTable_memberType).bind fun type => ?_
  dsimp only
  split
  · exact orderly_memberName.bind fun _ => orderly_member fun _ => Element.staysWithin_addValue
  · exact (orderly_text (by nofun)).bind fun _ =>
      orderly_member fun _ => Element.staysWithin_addValue

theorem orderly_referenceClause {e : Element} : Orderly held (referenceClause e) :=
  orderly_referencePath.bind fun _ => orderly_member fun _ => Element.staysWithin_addReference

theorem orderly_elementClause [PatternCompiler] {opened : Nat} {here : Path} {e : Element}
    {kind : ElementClause} :
    Orderly held (elementClause opened here e kind) := by
  cases kind with
  | type => exact orderly_typeClause
  | access =>
    exact orderly_access.bind fun _ => (orderly_changing Info.staysWithin_declareAccess).bind
      fun _ => orderly_pure
  | min => exact orderly_bound.bind fun _ => orderly_changing Element.staysWithin_declareOnce
  | max => exact orderly_bound.bind fun _ => orderly_changing Element.staysWithin_declareOnce
  | default =>
    exact (orderly_text (by nofun)).bind fun _ => orderly_changing Element.staysWithin_declareOnce
  | units =>
    exact (orderly_text (by nofun)).bind fun _ => orderly_changing Element.staysWithin_declareOnce
  | pattern =>
    exact (orderly_text (by nofun)).bind fun _ =>
      orderly_changing Element.staysWithin_declarePattern
  | caseRule => exact orderly_caseRule.bind fun _ => orderly_pure
  | wording => exact (orderly_text (by nofun)).bind fun _ => orderly_pure
  | value => exact orderly_valueClause
  | reference => exact orderly_referenceClause
  | condition => exact orderly_attachment.bind fun _ => orderly_pure

theorem orderly_elementClauses [PatternCompiler] {opened bound : Nat} {here : Path} {e : Element} :
    Orderly held (elementClauses opened here bound e) := by
  induction bound generalizing held e with
  | zero => exact orderly_pure
  | succ bound ih =>
    refine orderly_token still_pure fun token => ?_
    dsimp only
    split
    · exact orderly_elementClause.bind fun _ => ih
    · exact (Orderly.dropLine token).bind fun _ => ih
    · exact (Orderly.handBack token).bind fun _ => orderly_pure

theorem still_noteRefEnum {path : Path} : Still (onSession (·.noteRefEnum path)) :=
  still_onSession fun _ kind => by cases kind <;> rfl

theorem orderly_element [PatternCompiler] {bound : Nat} {access : Access} {parent : Path} :
    Orderly held (element bound access parent) := by
  refine still_line.then fun opened => orderly_name.bind fun name => orderly_label?.bind
    fun label => orderly_help?.bind fun help => (orderly_taking Info.withinTable_ofItem).bind
    fun info => still_note.then fun _ => orderly_elementClauses.bind fun e =>
    (still_closing Element.withinTable_check).then fun _ => ?_
  dsimp only
  split
  · exact still_noteRefEnum.then fun _ => still_tell.then fun _ => orderly_pure
  · exact still_tell.then fun _ => orderly_pure

end Elements

section Conditions

theorem orderly_conditionClause {d : ConditionDraft} {kind : ConditionClause} :
    Orderly held (conditionClause d kind) := by
  cases kind with
  | source | pattern | value => exact orderly_text?.bind fun _ => orderly_pure
  | operation | caseRule =>
    exact orderly_text?.bind fun _ => (orderly_taking (withinTable_word (by simp))).bind
      fun _ => orderly_pure

theorem orderly_conditionClauses {bound : Nat} {d : ConditionDraft} :
    Orderly held (conditionClauses bound d) := by
  induction bound generalizing held d with
  | zero => exact orderly_pure
  | succ bound ih =>
    refine orderly_token still_pure fun token => ?_
    dsimp only
    split
    · exact orderly_conditionClause.bind fun _ => ih
    · exact (Orderly.dropLine token).bind fun _ => ih
    · exact (Orderly.handBack token).bind fun _ => orderly_pure

theorem still_required {opened : Nat} {part : Part} {text : Option String} :
    Still (required opened part text) := by
  cases text with
  | none => exact still_failWithin nofun
  | some text => exact still_pure

theorem orderly_predicate {opened : Nat} {d : ConditionDraft} :
    Orderly held (predicate opened d) := by
  unfold predicate
  split <;> exact still_required.then fun _ => orderly_pure

/-- A condition is added where it belongs. -/
theorem still_addCondition (condition : Condition) :
    Still (extending (Session.onTable condition.source.table (Table.addCondition condition))) := by
  refine still_extending (.within Table.staysWithin_addCondition) fun s s' hs h => ?_
  obtain ⟨table, ht, rfl⟩ := Session.onTable_ok_iff.mp h
  obtain ⟨-, rfl⟩ := Table.addCondition_ok_iff.mp ht
  refine hs.withTable fun c hc => ?_
  rcases List.mem_append.mp hc with hc | hc
  · exact hs _ c hc
  · rw [List.mem_singleton.mp hc]

theorem orderly_condition {bound : Nat} : Orderly held (condition bound) :=
  still_line.then fun _ => orderly_name.bind fun name => orderly_conditionClauses.bind
    fun _ => still_required.then fun _ => (orderly_taking (Path.withinTable_ofText _)).bind
    fun source => orderly_predicate.bind fun predicate =>
    (still_addCondition ⟨name, source, predicate⟩).then fun _ => .still still_tell

theorem orderly_globalError : Orderly held globalError := by
  refine orderly_name.bind fun name => orderly_description?.bind fun description =>
    .still (still_extending (.within Catalogs.staysWithin_declare) fun s s' hs h => ?_)
  obtain ⟨catalogs, -, rfl⟩ := Session.onCatalogs_ok_iff.mp h
  exact hs.of_table fun kind => by cases kind <;> rfl

end Conditions

section Collections

/-- What follows a head that may have a count is orderly if it is for every head. -/
theorem orderly_head {α : Type} {count : Option Int} {info : Info} {rest : Head → Reading α}
    (h : ∀ head, Orderly none (rest head)) :
    Orderly held (headed count info rest) := by
  cases count with
  | none => exact still_pure.then h
  | some count => exact (orderly_changing Head.staysWithin_declareInstances).bind h

theorem orderly_openList {access : Access} {parent : Path} {outer : Nat} :
    Orderly held (openList access parent outer) := by
  refine still_line.then fun opened => orderly_name.bind fun name =>
    orderly_instances?.bind fun count => ?_
  dsimp only
  split
  · exact orderly_failIn_bind (by nofun)
  · exact still_note.then fun _ => orderly_label?.bind fun _ => orderly_help?.bind fun _ =>
      (orderly_taking Info.withinTable_ofItem).bind fun _ => still_note.then fun _ =>
      orderly_head fun _ => orderly_pure

theorem orderly_closeList {place : ListPlace} {d : ListDraft} :
    Orderly held (closeList place d) :=
  still_limits.then fun _ => (still_closing Collection.withinTable_settle).then fun _ =>
    still_note.then fun _ => still_note.then fun _ => orderly_pure

theorem orderly_list {clauses : ListPlace → ListDraft → Reading ListDraft} {access : Access}
    {parent : Path} {outer : Nat} (h : ∀ place d, Orderly none (clauses place d)) :
    Orderly held (list clauses access parent outer) :=
  orderly_openList.bind fun _ => (h _ _).bind fun _ => orderly_closeList

theorem orderly_adding {c : Collection} {item : Item} : Orderly held (adding c item) :=
  orderly_changing Collection.staysWithin_add

theorem orderly_attaching {c : Collection} {here : Path} : Orderly held (attaching c here) :=
  orderly_attachment.bind fun _ => orderly_pure

theorem orderly_accessClause {d : ListDraft} : Orderly held (accessClause d) :=
  orderly_access.bind fun _ => (orderly_changing Info.staysWithin_declareAccess).bind
    fun _ => orderly_pure

theorem orderly_listClauses [PatternCompiler] {bound : Nat} {place : ListPlace} {d : ListDraft} :
    Orderly held (listClauses bound place d) := by
  induction bound generalizing held place d with
  | zero => exact orderly_pure
  | succ bound ih =>
    refine orderly_token still_pure fun token => ?_
    dsimp only
    split
    · exact orderly_capacity.bind fun _ => ih
    · exact orderly_keys.bind fun _ => ih
    · exact orderly_accessClause.bind fun _ => ih
    · exact orderly_element.bind fun _ => orderly_adding.bind fun _ => ih
    · exact (orderly_list fun _ _ => ih).bind fun _ => orderly_adding.bind fun _ => ih
    · exact orderly_attaching.bind fun _ => ih
    · exact orderly_pure
    · exact (Orderly.dropLine token).bind fun _ => ih
    · exact orderly_failWithin nofun

theorem orderly_errorClause {g : Group} : Orderly held (errorClause g) :=
  orderly_name.bind fun _ => orderly_description?.bind fun _ =>
    orderly_changing Group.staysWithin_addError

theorem orderly_groupClauses [PatternCompiler] {place : GroupPlace} {bound : Nat} {g : Group} :
    Orderly held (groupClauses place bound g) := by
  induction bound generalizing held g with
  | zero => exact orderly_pure
  | succ bound ih =>
    refine orderly_token still_pure fun token => ?_
    dsimp only
    split
    · exact orderly_capacity.bind fun _ => ih
    · exact orderly_keys.bind fun _ => ih
    · exact orderly_attaching.bind fun _ => ih
    · exact orderly_element.bind fun _ => orderly_adding.bind fun _ => ih
    · exact (orderly_list fun _ _ => orderly_listClauses).bind fun _ =>
        orderly_adding.bind fun _ => ih
    · exact orderly_errorClause.bind fun _ => ih
    · exact orderly_pure
    · exact (Orderly.dropLine token).bind fun _ => ih
    · exact (Orderly.handBack token).bind fun _ => orderly_pure

theorem orderly_openGroup : Orderly held openGroup := by
  refine still_line.then fun opened => orderly_tokenText.bind fun word => ?_
  dsimp only
  split
  · exact orderly_name.bind fun _ => orderly_instances?.bind fun _ => orderly_label?.bind
      fun _ => orderly_help?.bind fun _ => (orderly_taking Info.withinTable_ofItem).bind
      fun _ => still_note.then fun _ => orderly_head fun _ => orderly_pure
  · exact .still (still_failAt nofun)

theorem still_addGroup {kind : TableKind} {g : Group} :
    Still (extending (Session.onTable kind (Table.addGroup g))) := by
  refine still_extending (.within Table.staysWithin_addGroup) fun s s' hs h => ?_
  obtain ⟨table, ht, rfl⟩ := Session.onTable_ok_iff.mp h
  obtain ⟨-, rfl⟩ := Table.addGroup_ok_iff.mp ht
  exact hs.withTable fun c hc => hs kind c hc

theorem orderly_closeGroup {place : GroupPlace} {g : Group} :
    Orderly held (closeGroup place g) :=
  still_limits.then fun _ => (still_closing Collection.withinTable_settle).then fun _ =>
    still_note.then fun _ => still_addGroup.then fun _ => .still still_tell

theorem orderly_group [PatternCompiler] {bound : Nat} : Orderly held (group bound) :=
  orderly_openGroup.bind fun _ => orderly_groupClauses.bind fun _ => orderly_closeGroup

end Collections

/-! ## Whole sources -/

theorem orderly_statement [PatternCompiler] {bound : Nat} {kind : Kind} :
    Orderly held (statement bound kind) := by
  cases kind with
  | globalError => exact orderly_globalError
  | condition => exact orderly_condition
  | group => exact orderly_group

/-- **The reading of a source is orderly.** -/
theorem orderly_statements [PatternCompiler] {bound : Nat} : Orderly held (statements bound) := by
  induction bound generalizing held with
  | zero => exact orderly_pure
  | succ bound ih =>
    refine orderly_token still_pure fun token => ?_
    dsimp only
    split
    · exact orderly_statement.bind fun _ => ih
    · exact (Orderly.dropLine token).bind fun _ => ih
    · exact orderly_fail nofun

end Reading

/-- **A source is never refused for an internal reason.** -/
theorem read_not_internal [PatternCompiler] {source : String} {stream : Token.Stream}
    {limits : Limits} {failure : Failure} (hstream : Token.Stream.ofSource source = .ok stream)
    (h : (read stream (.ofLimits limits)).result = .error failure) :
    ¬ failure.cause.IsInternal := by
  have hready : Reading.Ready (Token.Stream.numberedLines source) none
      ⟨stream, .ofLimits limits, #[.ofDebug "Starting syntax analysis"]⟩ :=
    .settled (Token.Stream.reads_ofSource hstream) (Session.atHome_ofLimits limits)
  have hend : Reading.EndsWell _ (Reading.statements (stream.unread + 1) _) :=
    Reading.orderly_statements.reads hready
  unfold read readAll at h
  split at h
  · cases h
  · rename_i hread
    cases h
    rw [hread] at hend
    exact hend

end DeviceSchema.Statement
