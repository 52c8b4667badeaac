import DeviceSchema.Proofs.Construction.AccessClauses
import DeviceSchema.Proofs.Lockstep.Source
import DeviceSchema.Proofs.Lockstep.Tracks

/-! # Statements up to where two sources differ

Everything that is read of a source tracks itself: two readers whose texts are tied do the same,
as long as the first does not read on into its end.  They may be on different lines, so loops are
compared with loops for places that differ in the line on which they were opened (`Loop.Tracks`).

With nothing behind the texts this says that a reading depends on the text that is left, and not
on how the stream came to it.
-/
namespace DeviceSchema.Statement.Reading
open Token (Indistinct)

variable {α β κ σ : Type} {t₁ t₂ : List Char}

/-! ## Words and texts -/

section Texts

theorem tracks_seesStart (hends : Indistinct t₁ t₂) {c : Char} :
    Tracks t₁ t₂ Eq (seesStart c) (seesStart c) :=
  tracks_look fun _ _ h => h.peekStartsWith hends c

theorem tracks_nextQuoted (hends : Indistinct t₁ t₂) :
    Tracks t₁ t₂ Eq (onStream Token.Stream.nextQuoted) (onStream Token.Stream.nextQuoted) := by
  refine tracks_onStream (fun _ hs => hs.nextQuoted_le) fun s₁ s₂ h hlength => ?_
  obtain ⟨hvalue, habreast⟩ := h.nextQuoted hends hlength
  exact ⟨hvalue.symm, habreast⟩

theorem tracks_expression (hends : Indistinct t₁ t₂) : Tracks t₁ t₂ Eq expression expression := by
  have harithmetic : Tracks t₁ t₂ Eq (onStream Token.Stream.nextExpression)
      (onStream Token.Stream.nextExpression) := by
    refine tracks_onStream (fun _ hs => hs.nextExpression_le) fun s₁ s₂ h hlength => ?_
    obtain ⟨hvalue, habreast⟩ := h.nextExpression hends hlength
    exact ⟨hvalue.symm, habreast⟩
  refine harithmetic.next fun result => ?_
  cases result with
  | ok value => exact tracks_pure rfl
  | error failure => exact tracks_fail

theorem tracks_tokenText (hends : Indistinct t₁ t₂) : Tracks t₁ t₂ Eq tokenText tokenText := by
  refine tracks_token? hends (tracks_pure rfl) fun token token' htext => .ahead (tracks_pure ?_)
  rw [Option.map_some, Option.map_some, htext]

/-- Names of nodes and of members are read alike. -/
theorem tracks_anyName (hends : Indistinct t₁ t₂) {ofMember : Bool} {tooLong : Nat → Cause}
    {malformed : String → Cause} :
    Tracks t₁ t₂ Eq (anyName ofMember tooLong malformed) (anyName ofMember tooLong malformed) := by
  refine tracks_line fun n n' => tracks_token? hends tracks_failAt
    fun token token' htext => ?_
  dsimp only
  rw [htext]
  refine .ahead (tracks_limits.next fun l => ?_)
  split
  · exact tracks_fail
  · split
    · exact tracks_fail
    · exact tracks_pure rfl

theorem tracks_name (hends : Indistinct t₁ t₂) : Tracks t₁ t₂ Eq name name := tracks_anyName hends

theorem tracks_memberName (hends : Indistinct t₁ t₂) : Tracks t₁ t₂ Eq memberName memberName :=
  tracks_anyName hends

theorem tracks_text? (hends : Indistinct t₁ t₂) : Tracks t₁ t₂ Eq text? text? := by
  refine (tracks_seesStart hends).next fun quoted => ?_
  cases quoted with
  | true => exact tracks_nextQuoted hends
  | false =>
    refine tracks_token? hends (tracks_pure rfl) fun token token' htext => .ahead (tracks_pure ?_)
    rw [Option.map_some, Option.map_some, htext]

theorem tracks_text (hends : Indistinct t₁ t₂) {missing : Cause} :
    Tracks t₁ t₂ Eq (text missing) (text missing) := by
  refine (tracks_text? hends).next fun text => ?_
  cases text with
  | none => exact tracks_fail
  | some text => exact tracks_pure rfl

theorem tracks_description? (hends : Indistinct t₁ t₂) {wording : Wording} :
    Tracks t₁ t₂ Eq (description? wording) (description? wording) := by
  refine (tracks_seesStart hends).next fun quoted => ?_
  cases quoted with
  | false => exact tracks_pure rfl
  | true =>
    refine (tracks_nextQuoted hends).next fun text => ?_
    cases text with
    | none => exact tracks_fail
    | some text =>
      dsimp only
      split
      · exact tracks_fail
      · exact tracks_pure rfl

theorem tracks_label? (hends : Indistinct t₁ t₂) : Tracks t₁ t₂ Eq label? label? := by
  refine (tracks_description? hends).next fun text => ?_
  cases text with
  | none => exact tracks_pure rfl
  | some text =>
    dsimp only
    split
    · exact tracks_fail
    · exact tracks_pure rfl

theorem tracks_help? (hends : Indistinct t₁ t₂) : Tracks t₁ t₂ Eq help? help? :=
  tracks_description? hends

theorem tracks_instances? (hends : Indistinct t₁ t₂) :
    Tracks t₁ t₂ Eq instances? instances? := by
  refine Tracks.next (tracks_look fun _ _ h => h.peekInt hends) fun seen => ?_
  split
  · refine Tracks.bind (R := fun a b => b.toOption = a.toOption)
      (tracks_onStream (fun _ hs => hs.nextInt_le) fun s₁ s₂ h hlength => h.nextInt hends hlength)
      (fun _ => rfl) fun result result' hresult => ?_
    cases result <;> cases result' <;> cases hresult
    · exact tracks_fail
    · exact tracks_pure rfl
  · refine (tracks_seesStart hends).next fun opening => ?_
    split
    · exact (tracks_expression hends).next fun _ => tracks_pure rfl
    · exact tracks_pure rfl

theorem tracks_access (hends : Indistinct t₁ t₂) : Tracks t₁ t₂ Eq access access := by
  refine tracks_line fun n n' => tracks_token? hends tracks_failAt
    fun token token' htext => .ahead ?_
  dsimp only
  rw [htext]
  exact tracks_taking

theorem tracks_bound (hends : Indistinct t₁ t₂) : Tracks t₁ t₂ Eq bound bound := by
  refine (tracks_seesStart hends).next fun opening => ?_
  cases opening with
  | true => exact (tracks_expression hends).next fun _ => tracks_pure rfl
  | false =>
    exact tracks_token? hends tracks_fail fun token token' htext =>
      .ahead (tracks_pure htext.symm)

theorem tracks_caseRule (hends : Indistinct t₁ t₂) : Tracks t₁ t₂ Eq caseRule caseRule := by
  refine (tracks_text hends).next fun text => ?_
  split
  · exact tracks_pure rfl
  · exact tracks_fail

theorem tracks_capacity (hends : Indistinct t₁ t₂) {construct : Construct}
    {opened opened' : Nat} :
    Tracks t₁ t₂ Eq (capacity construct opened) (capacity construct opened') := by
  refine (tracks_tokenText hends).next fun text => ?_
  split
  · exact tracks_pure rfl
  · exact tracks_failWithin

theorem tracks_keys (hends : Indistinct t₁ t₂) {construct : Construct} {opened opened' : Nat} :
    Tracks t₁ t₂ Eq (keys construct opened) (keys construct opened') := by
  refine (tracks_tokenText hends).next fun text => ?_
  split
  · exact tracks_pure rfl
  · exact tracks_failWithin

theorem tracks_referencePath (hends : Indistinct t₁ t₂) :
    Tracks t₁ t₂ Eq referencePath referencePath := by
  refine (tracks_text hends).next fun path => ?_
  split
  · split
    · exact tracks_fail
    · split
      · exact tracks_fail
      · exact tracks_pure rfl
  · exact tracks_fail

theorem tracks_attachment (hends : Indistinct t₁ t₂) {info : Info} {here : Path} :
    Tracks t₁ t₂ Eq (attachment info here) (attachment info here) :=
  (tracks_name hends).next fun _ => tracks_session.next fun _ =>
    tracks_taking.next fun _ => tracks_taking

end Texts

/-! ## Clauses -/

section Clauses
variable {opened opened' : Nat}

theorem tracks_member (hends : Indistinct t₁ t₂) {name : String}
    {add : Info → EStateM.Result Defect Element Unit} :
    Tracks t₁ t₂ Eq (member name add) (member name add) :=
  tracks_note.next fun _ => (tracks_label? hends).next fun _ => (tracks_help? hends).next fun _ =>
    tracks_taking.next fun _ => tracks_taking

theorem tracks_typeClause (hends : Indistinct t₁ t₂) {e : Element} :
    Tracks t₁ t₂ Eq (typeClause opened e) (typeClause opened' e) := by
  refine tracks_token? hends tracks_failAt fun token token' htext => .ahead ?_
  dsimp only
  rw [htext]
  refine tracks_taking.next fun declared => ?_
  cases declared.type with
  | none => exact tracks_pure rfl
  | some type => exact tracks_note.next fun _ => tracks_pure rfl

theorem tracks_valueClause (hends : Indistinct t₁ t₂) {e : Element} :
    Tracks t₁ t₂ Eq (valueClause e) (valueClause e) := by
  refine tracks_taking.next fun type => ?_
  dsimp only
  split
  · exact (tracks_memberName hends).next fun _ => tracks_member hends
  · exact (tracks_text hends).next fun _ => tracks_member hends

theorem tracks_elementClause [PatternCompiler] (hends : Indistinct t₁ t₂) {here : Path}
    {e : Element} (kind : ElementClause) :
    Tracks t₁ t₂ Eq (elementClause opened here e kind) (elementClause opened' here e kind) := by
  cases kind with
  | type => exact tracks_typeClause hends
  | access =>
    exact (tracks_access hends).next fun _ => tracks_taking.next fun _ => tracks_pure rfl
  | min | max => exact (tracks_bound hends).next fun _ => tracks_taking
  | default | units | pattern => exact (tracks_text hends).next fun _ => tracks_taking
  | caseRule => exact (tracks_caseRule hends).next fun _ => tracks_pure rfl
  | wording => exact (tracks_text hends).next fun _ => tracks_pure rfl
  | value => exact tracks_valueClause hends
  | reference => exact (tracks_referencePath hends).next fun _ => tracks_member hends
  | condition => exact (tracks_attachment hends).next fun _ => tracks_pure rfl

theorem tracks_conditionClause (hends : Indistinct t₁ t₂) {d : ConditionDraft}
    (kind : ConditionClause) : Tracks t₁ t₂ Eq (conditionClause d kind) (conditionClause d kind) := by
  cases kind with
  | source | pattern | value => exact (tracks_text? hends).next fun _ => tracks_pure rfl
  | operation | caseRule =>
    exact (tracks_text? hends).next fun _ => tracks_taking.next fun _ => tracks_pure rfl

theorem tracks_accessClause (hends : Indistinct t₁ t₂) {d : ListDraft} :
    Tracks t₁ t₂ Eq (accessClause d) (accessClause d) :=
  (tracks_access hends).next fun _ => tracks_taking.next fun _ => tracks_pure rfl

theorem tracks_attaching (hends : Indistinct t₁ t₂) {c : Collection} {here : Path} :
    Tracks t₁ t₂ Eq (attaching c here) (attaching c here) :=
  (tracks_attachment hends).next fun _ => tracks_pure rfl

theorem tracks_errorClause (hends : Indistinct t₁ t₂) {g : Group} :
    Tracks t₁ t₂ Eq (errorClause g) (errorClause g) :=
  (tracks_name hends).next fun _ => (tracks_description? hends).next fun _ => tracks_taking

theorem tracks_globalError (hends : Indistinct t₁ t₂) :
    Tracks t₁ t₂ Eq globalError globalError :=
  (tracks_name hends).next fun _ => (tracks_description? hends).next fun _ => tracks_extending

end Clauses

/-! ## Loops -/

section Loops

/-- What follows a call, and what a clause does that makes none, is tracked. -/
inductive Clause.Tracks (t₁ t₂ : List Char) : Clause σ → Clause σ → Prop
  | plain {turn turn' : Reading (Turn σ)} (h : Reading.Tracks t₁ t₂ Eq turn turn') :
      Tracks t₁ t₂ (.plain turn) (.plain turn')
  | calling {call : Call} {rest rest' : call.Result → Reading (Turn σ)}
      (h : ∀ result, Reading.Tracks t₁ t₂ Eq (rest result) (rest' result)) :
      Tracks t₁ t₂ (.calling call rest) (.calling call rest')

/-- Two loops that do the same, up to calls. -/
structure Loop.Tracks (t₁ t₂ : List Char) (loop loop' : Loop κ σ) : Prop where
  keywords : loop'.keywords = loop.keywords
  clause (state : σ) (kind : κ) :
    Clause.Tracks t₁ t₂ (loop.clause state kind) (loop'.clause state kind)
  other (token token' : Token) (state : σ) (htext : token'.text = token.text) :
    Onward t₁ t₂ Eq token token' (loop.other token state) (loop'.other token' state)

/-- Calls with this bound track themselves. -/
def CallsTrack [PatternCompiler] (t₁ t₂ : List Char) (bound : Nat) : Prop :=
  ∀ call : Call, Tracks t₁ t₂ Eq (call.run bound) (call.run bound)

variable {loop loop' : Loop κ σ} {bound : Nat}

theorem Clause.Tracks.read [PatternCompiler] {clause clause' : Clause σ}
    (h : Clause.Tracks t₁ t₂ clause clause') (hcalls : CallsTrack t₁ t₂ bound) :
    Reading.Tracks t₁ t₂ Eq (clause.read bound) (clause'.read bound) := by
  cases h with
  | plain h => exact h
  | calling h => exact (hcalls _).next h

/-- What a token that begins no clause leads to ends the loop. -/
theorem Onward.done {token token' : Token} {m m' : Reading σ}
    (h : Onward t₁ t₂ Eq token token' m m') :
    Onward t₁ t₂ Eq token token' (m >>= fun state => return Turn.done state)
      (m' >>= fun state => return Turn.done state) := by
  cases h with
  | ahead h => exact .ahead (h.next fun _ => tracks_pure rfl)
  | back h h₁ h₂ =>
    refine .back (congrArg Turn.done h) ?_ ?_
    · rw [h₁, bind_assoc]
      rfl
    · rw [h₂, bind_assoc]
      rfl
  | @drop n₁ n₂ h h₁ h₂ =>
    have hdone : Tracks t₁ t₂ Eq (n₁ >>= fun state => return Turn.done state)
        (n₂ >>= fun state => return Turn.done state) := h.next fun _ => tracks_pure rfl
    exact .drop hdone (by rw [h₁, bind_assoc]) (by rw [h₂, bind_assoc])

theorem Loop.Tracks.turn [PatternCompiler] (hends : Indistinct t₁ t₂)
    (h : Loop.Tracks t₁ t₂ loop loop') (hcalls : CallsTrack t₁ t₂ bound) (state : σ) :
    Reading.Tracks t₁ t₂ Eq (loop.turn bound state) (loop'.turn bound state) := by
  refine tracks_token? hends (tracks_pure rfl) fun token token' htext => ?_
  dsimp only
  rw [h.keywords, ofToken_congr htext]
  cases hlead : Lead.ofToken loop.keywords token with
  | clause kind => exact .ahead ((h.clause state kind).read hcalls)
  | comment => exact .drop (tracks_pure rfl) rfl rfl
  | other => exact (h.other token token' state htext).done

theorem tracks_andThen {next next' : σ → Reading σ}
    (h : ∀ state, Tracks t₁ t₂ Eq (next state) (next' state)) (turn : Turn σ) :
    Tracks t₁ t₂ Eq (turn.andThen next) (turn.andThen next') := by
  cases turn with
  | more state => exact h state
  | done state => exact tracks_pure rfl

theorem Loop.Tracks.run [PatternCompiler] (hends : Indistinct t₁ t₂)
    (h : Loop.Tracks t₁ t₂ loop loop') (hcalls : ∀ n < bound, CallsTrack t₁ t₂ n) (state : σ) :
    Reading.Tracks t₁ t₂ Eq (loop.run bound state) (loop'.run bound state) := by
  induction bound generalizing state with
  | zero => exact tracks_pure rfl
  | succ bound ih =>
    exact (h.turn hends (hcalls bound (Nat.lt_succ_self _)) state).next
      (tracks_andThen fun state => ih (fun n hn => hcalls n (hn.trans (Nat.lt_succ_self _))) state)

end Loops

/-! ## Constructs -/

section Constructs
variable {opened opened' : Nat}

theorem elementLoop_tracks [PatternCompiler] (hends : Indistinct t₁ t₂) (here : Path) :
    Loop.Tracks t₁ t₂ (elementLoop opened here) (elementLoop opened' here) where
  keywords := rfl
  clause _ kind := .plain ((tracks_elementClause hends kind).next fun _ => tracks_pure rfl)
  other _ _ _ _ := .back rfl rfl rfl

theorem conditionLoop_tracks (hends : Indistinct t₁ t₂) :
    Loop.Tracks t₁ t₂ conditionLoop conditionLoop where
  keywords := rfl
  clause _ kind := .plain ((tracks_conditionClause hends kind).next fun _ => tracks_pure rfl)
  other _ _ _ _ := .back rfl rfl rfl

theorem listLoop_tracks (hends : Indistinct t₁ t₂) {place place' : ListPlace}
    (hplace : ListPlace.Alike place place') :
    Loop.Tracks t₁ t₂ (listLoop place) (listLoop place') where
  keywords := rfl
  clause d kind := by
    obtain ⟨opened, here, depth⟩ := place
    obtain ⟨opened', here', depth'⟩ := place'
    obtain ⟨hhere, hdepth⟩ := hplace
    cases hhere
    cases hdepth
    cases kind with
    | capacity => exact .plain ((tracks_capacity hends).next fun _ => tracks_pure rfl)
    | keys => exact .plain ((tracks_keys hends).next fun _ => tracks_pure rfl)
    | access => exact .plain ((tracks_accessClause hends).next fun _ => tracks_pure rfl)
    | element | list => exact .calling fun _ => tracks_taking.next fun _ => tracks_pure rfl
    | condition => exact .plain ((tracks_attaching hends).next fun _ => tracks_pure rfl)
    | stop => exact .plain (tracks_pure rfl)
  other _ _ _ _ := .ahead tracks_failWithin

theorem groupLoop_tracks (hends : Indistinct t₁ t₂) {place place' : GroupPlace}
    (hplace : place'.here = place.here) :
    Loop.Tracks t₁ t₂ (groupLoop place) (groupLoop place') where
  keywords := rfl
  clause g kind := by
    obtain ⟨opened, here⟩ := place
    obtain ⟨opened', here'⟩ := place'
    cases hplace
    cases kind with
    | capacity => exact .plain ((tracks_capacity hends).next fun _ => tracks_pure rfl)
    | keys => exact .plain ((tracks_keys hends).next fun _ => tracks_pure rfl)
    | condition => exact .plain ((tracks_attaching hends).next fun _ => tracks_pure rfl)
    | element | list => exact .calling fun _ => tracks_taking.next fun _ => tracks_pure rfl
    | error => exact .plain ((tracks_errorClause hends).next fun _ => tracks_pure rfl)
    | stop => exact .plain (tracks_pure rfl)
  other _ _ _ _ := .back rfl rfl rfl

theorem statementLoop_tracks (hends : Indistinct t₁ t₂) :
    Loop.Tracks t₁ t₂ statementLoop statementLoop where
  keywords := rfl
  clause _ kind := by
    cases kind with
    | globalError => exact .plain ((tracks_globalError hends).next fun _ => tracks_pure rfl)
    | condition | group => exact .calling fun _ => tracks_pure rfl
  other _ _ _ _ := .ahead tracks_fail

/-- An element that was opened by two readers differs at most in its line. -/
theorem tracks_openElement (hends : Indistinct t₁ t₂) :
    Tracks t₁ t₂ (fun a b => b.2 = a.2) openElement openElement :=
  tracks_line fun _ _ => (tracks_name hends).next fun _ => (tracks_label? hends).next fun _ =>
    (tracks_help? hends).next fun _ => tracks_taking.next fun _ => tracks_note.next fun _ =>
    tracks_pure rfl

theorem tracks_closeElement {access : Access} {here : Path} {name : String} {e : Element} :
    Tracks t₁ t₂ Eq (closeElement access here opened name e)
      (closeElement access here opened' name e) := by
  refine tracks_closing.next fun _ => ?_
  dsimp only
  split
  · exact tracks_onSession.next fun _ => tracks_tell.next fun _ => tracks_pure rfl
  · exact tracks_tell.next fun _ => tracks_pure rfl

/-- What follows a head that may have a count. -/
theorem tracks_head {R : α → α → Prop} {count : Option Int} {info : Info}
    {rest rest' : Head → Reading α} (h : ∀ head, Tracks t₁ t₂ R (rest head) (rest' head)) :
    Tracks t₁ t₂ R (headed count info rest) (headed count info rest') := by
  cases count with
  | none => exact Tracks.next (tracks_pure rfl) h
  | some count => exact Tracks.next tracks_taking h

theorem tracks_openList (hends : Indistinct t₁ t₂) {access : Access} {parent : Path}
    {outer : Nat} :
    Tracks t₁ t₂ (fun a b => ListPlace.Alike a.1 b.1 ∧ a.2 = b.2) (openList access parent outer)
      (openList access parent outer) := by
  refine tracks_line fun opened opened' => (tracks_name hends).next fun name =>
    (tracks_instances? hends).next fun count => ?_
  dsimp only
  split
  · exact tracks_failIn
  · exact tracks_note.next fun _ => (tracks_label? hends).next fun _ =>
      (tracks_help? hends).next fun _ => tracks_taking.next fun _ => tracks_note.next fun _ =>
      tracks_head fun _ => tracks_pure ⟨⟨rfl, rfl⟩, rfl⟩

theorem tracks_closeList {place place' : ListPlace} {d : ListDraft} :
    Tracks t₁ t₂ Eq (closeList place d) (closeList place' d) :=
  tracks_limits.next fun _ => tracks_closing.next fun _ => tracks_note.next fun _ =>
    tracks_note.next fun _ => tracks_pure rfl

theorem tracks_openGroup (hends : Indistinct t₁ t₂) :
    Tracks t₁ t₂ (fun a b => b.1.here = a.1.here ∧ a.2 = b.2) openGroup openGroup := by
  refine tracks_line fun opened opened' => (tracks_tokenText hends).next fun word => ?_
  dsimp only
  split
  · exact (tracks_name hends).next fun _ => (tracks_instances? hends).next fun _ =>
      (tracks_label? hends).next fun _ => (tracks_help? hends).next fun _ =>
      tracks_taking.next fun _ => tracks_note.next fun _ =>
      tracks_head fun _ => tracks_pure ⟨rfl, rfl⟩
  · exact tracks_failAt

theorem tracks_closeGroup {place place' : GroupPlace} {g : Group}
    (hplace : place'.here = place.here) :
    Tracks t₁ t₂ Eq (closeGroup place g) (closeGroup place' g) := by
  unfold closeGroup
  rw [hplace]
  exact tracks_limits.next fun _ => tracks_closing.next fun _ => tracks_note.next fun _ =>
    tracks_extending.next fun _ => tracks_tell

theorem tracks_closeCondition {name : String} {d : ConditionDraft} :
    Tracks t₁ t₂ Eq
      (do
        let source ← required opened .source d.source
        let source ← taking (Path.ofText source)
        let predicate ← predicate opened d
        extending (Session.onTable source.table (Table.addCondition ⟨name, source, predicate⟩))
        tell ((Event.ofSuccess Milestone.conditionAdded.text "Condition registered").details
          [("condition", name), ("table", source.table.word), ("line", toString opened)]))
      (do
        let source ← required opened' .source d.source
        let source ← taking (Path.ofText source)
        let predicate ← predicate opened' d
        extending (Session.onTable source.table (Table.addCondition ⟨name, source, predicate⟩))
        tell ((Event.ofSuccess Milestone.conditionAdded.text "Condition registered").details
          [("condition", name), ("table", source.table.word), ("line", toString opened')])) := by
  have hrequired : ∀ {part : Part} {text : Option String},
      Tracks t₁ t₂ Eq (required opened part text) (required opened' part text) := by
    intro part text
    cases text with
    | none => exact tracks_failWithin
    | some text => exact tracks_pure rfl
  have hpredicate : Tracks t₁ t₂ Eq (predicate opened d) (predicate opened' d) := by
    unfold predicate
    split <;> exact hrequired.next fun _ => tracks_pure rfl
  exact hrequired.next fun _ => tracks_taking.next fun _ => hpredicate.next fun _ =>
    tracks_extending.next fun _ => tracks_tell

/-- **Calls track themselves.**  Loops in a call make calls with a smaller bound. -/
theorem callsTrack [PatternCompiler] (hends : Indistinct t₁ t₂) (bound : Nat) :
    CallsTrack t₁ t₂ bound := by
  induction bound using Nat.strong_induction_on with
  | h bound ih =>
    intro call
    cases call with
    | condition =>
      refine tracks_line fun opened opened' => (tracks_name hends).next fun name => ?_
      refine Tracks.next ?_ fun d => tracks_closeCondition
      simp only [conditionClauses_eq]
      exact (conditionLoop_tracks hends).run hends ih _
    | group =>
      refine Tracks.bind (tracks_openGroup hends) (fun _ => ⟨rfl, rfl⟩) fun a b hab => ?_
      obtain ⟨place, g⟩ := a
      obtain ⟨place', g'⟩ := b
      obtain ⟨hplace, rfl⟩ := hab
      refine Tracks.next ?_ fun g => tracks_closeGroup hplace
      simp only [groupClauses_eq]
      exact (groupLoop_tracks hends hplace).run hends ih _
    | element access parent =>
      show Tracks t₁ t₂ Eq (element bound access parent) (element bound access parent)
      rw [element_eq]
      refine Tracks.bind (tracks_openElement hends) (fun _ => rfl) fun a b hab => ?_
      obtain ⟨opened, name, e⟩ := a
      obtain ⟨opened', name', e'⟩ := b
      obtain ⟨rfl, rfl⟩ := Prod.mk.inj hab
      exact ((elementLoop_tracks hends _).run hends ih _).next fun _ => tracks_closeElement
    | list access parent outer =>
      refine Tracks.bind (tracks_openList hends) (fun _ => ⟨⟨rfl, rfl⟩, rfl⟩) fun a b hab => ?_
      obtain ⟨place, d⟩ := a
      obtain ⟨place', d'⟩ := b
      obtain ⟨hplace, rfl⟩ := hab
      refine Tracks.next ?_ fun d => tracks_closeList
      simp only [listClauses_eq]
      exact (listLoop_tracks hends hplace).run hends ih _

end Constructs
end DeviceSchema.Statement.Reading
