import DeviceSchema.Proofs.Reading.Quiet
import DeviceSchema.Proofs.Tree.Changes
import DeviceSchema.Statement.Source

/-! # What holds of a reading because it holds of its steps

All statements are put together by `>>=` from few kinds of steps.  A property of readings is
**compositional** if it holds of these steps and `>>=` keeps it (`Compositional`).  It then
holds of every statement and of whole sources (`Compositional.statements`), and the text of
the statements need not be gone through once more for it.

Two things about the steps are left to the property.  Which failures **may** occur: a failure
is made on the line that the stream has reached, on a line that it had reached before, or for
a construct as a whole.  And which tokens are **known**: only a token that was read is ever
handed back.

The limits are looked at in two places only, where a length is checked and where a
collection is settled, so these two are steps of their own.
-/
namespace DeviceSchema

namespace Session

/-- A change of the session that does not depend on the limits. -/
def Unlimited {α : Type} (change : Session → α) (put : Limits → α → α) : Prop :=
  ∀ (s : Session) (limits : Limits), change { s with limits } = put limits (change s)

/-- What a change comes to, with other limits in the session that it leaves. -/
def limited (limits : Limits) :
    EStateM.Result Defect Session Unit → EStateM.Result Defect Session Unit
  | .ok _ s => .ok () { s with limits }
  | .error defect s => .error defect { s with limits }

theorem unlimited_onTable (kind : TableKind) (change : Changing Table Unit) :
    Unlimited (onTable kind change) limited := by
  intro s limits
  have htable : Session.table { s with limits } kind = s.table kind := by cases kind <;> rfl
  unfold onTable Changing.within
  dsimp only
  rw [htable]
  cases change (s.table kind) <;> cases kind <;> rfl

theorem unlimited_onCatalogs (change : Changing Catalogs Unit) :
    Unlimited (onCatalogs change) limited := by
  intro s limits
  unfold onCatalogs Changing.within
  dsimp only
  cases change s.catalogs <;> rfl

end Session

namespace Statement.Reading

/-- A property that holds of the steps of reading and is kept by `>>=`. -/
structure Compositional (may : Failure → Prop) (known : Token → Prop)
    (P : (α : Type) → Reading α → Prop) : Prop where
  pure {α : Type} (a : α) : P α (pure a)
  bind {α β : Type} {m : Reading α} {f : α → Reading β} (hm : P α m) (hf : ∀ a, P β (f a)) :
    P β (m >>= f)
  /-- A failure may be made later on a line that was reached before. -/
  line {β : Type} {f : Nat → Reading β}
    (hf : ∀ n, (∀ cause, may { cause, line := n }) → P β (f n)) : P β (line >>= f)
  fail {α : Type} (cause : Cause) : P α (fail cause)
  failing {α : Type} {failure : Failure} (h : may failure) : P α fun p => .error failure p
  token {β : Type} {f : Option Token → Reading β} (hnone : P β (f none))
    (hsome : ∀ token, known token → P β (f (some token))) : P β (token? >>= f)
  handBack {token : Token} (h : known token) : P Unit (handBack token)
  dropLine : P Unit dropLine
  quoted : P (Option String) (onStream Token.Stream.nextQuoted)
  arithmetic : P (Except Arithmetic.Failure Int) (onStream Token.Stream.nextExpression)
  integer : P (Except Token.Fault Int) (onStream Token.Stream.nextInt)
  look {α : Type} (view : Token.Stream → α) : P α (look view)
  table {β : Type} (kind : TableKind) {f : Table → Reading β} (hf : ∀ t, P β (f t)) :
    P β (session >>= fun s => f (s.table kind))
  /-- A length is checked against that of names. -/
  length {β : Type} (length : Nat) (tooLong : Nat → Cause) {m : Reading β} (hm : P β m) :
    P β (limits >>= fun limits =>
      if limits.nameLength < length then Reading.fail (tooLong limits.nameLength) else m)
  /-- A collection is settled. -/
  settle {β : Type} (c : Collection) (construct : Construct) (name : Collection → String)
    (line : Nat) (hfail : ∀ limits defect, may ⟨.defect defect, line, some construct,
      some (name (c.settle limits).2)⟩) {f : Collection → Reading β} (hf : ∀ c, P β (f c)) :
    P β (limits >>= fun limits => closing construct (name (c.settle limits).2) line
      (c.settle limits).1 >>= fun _ => f (c.settle limits).2)
  onSession {change : Session → Session}
    (h : Session.Unlimited change fun limits s => { s with limits }) : P Unit (onSession change)
  extending {change : Changing Session Unit} (h : Session.Unlimited change Session.limited) :
    P Unit (extending change)
  tell {event : Event} (h : event.isError = false) : P Unit (tell event)

namespace Compositional
variable {may : Failure → Prop} {known : Token → Prop} {P : (α : Type) → Reading α → Prop}
variable {α β : Type}

section Steps

theorem taking (h : Compositional may known P) (result : Except Defect α) :
    P α (taking result) := by
  cases result with
  | ok value => exact h.pure value
  | error defect => exact h.fail _

theorem closing (h : Compositional may known P) {construct : Construct} {name : String}
    {line : Nat} (hfail : ∀ defect, may
      { cause := .defect defect, line, construct := some construct, name := some name })
    (result : Except Defect α) : P α (closing construct name line result) := by
  cases result with
  | ok value => exact h.pure value
  | error defect => exact h.failing (hfail defect)

theorem note (h : Compositional may known P) (change : Statistics → Statistics) :
    P Unit (note change) := h.onSession fun _ _ => rfl

theorem tokenText (h : Compositional may known P) : P String tokenText :=
  h.token (h.pure _) fun _ _ => h.pure _

theorem expression (h : Compositional may known P) : P Int expression := by
  refine h.bind h.arithmetic fun result => ?_
  cases result with
  | ok value => exact h.pure value
  | error failure => exact h.fail _

/-- Both kinds of names are read in this way. -/
theorem anyName (h : Compositional may known P) {ofMember : Bool} {tooLong : Nat → Cause}
    {malformed : String → Cause} :
    P String (Reading.anyName ofMember tooLong malformed) := by
  refine h.line fun before hbefore => h.token (h.failing (hbefore _)) fun token _ => ?_
  refine h.length token.text.length tooLong ?_
  split
  · exact h.fail _
  · exact h.pure _

theorem name (h : Compositional may known P) : P String name := h.anyName

theorem memberName (h : Compositional may known P) : P String memberName := h.anyName

theorem text? (h : Compositional may known P) : P (Option String) text? := by
  refine h.bind (h.look _) fun quoted => ?_
  split
  · exact h.quoted
  · exact h.token (h.pure _) fun _ _ => h.pure _

theorem text (h : Compositional may known P) (missing : Cause) : P String (text missing) := by
  refine h.bind h.text? fun text => ?_
  cases text with
  | none => exact h.fail _
  | some text => exact h.pure text

theorem description? (h : Compositional may known P) (wording : Wording) :
    P (Option String) (description? wording) := by
  refine h.bind (h.look _) fun quoted => ?_
  split
  · exact h.pure none
  · refine h.bind h.quoted fun text => ?_
    cases text with
    | none => exact h.fail _
    | some text =>
      dsimp only
      split
      · exact h.fail _
      · exact h.pure _

theorem label? (h : Compositional may known P) : P (Option String) label? := by
  refine h.bind (h.description? .label) fun text => ?_
  cases text with
  | none => exact h.pure none
  | some text =>
    dsimp only
    split
    · exact h.fail _
    · exact h.pure _

theorem help? (h : Compositional may known P) : P (Option String) help? := h.description? .help

theorem instances? (h : Compositional may known P) : P (Option Int) instances? := by
  refine h.bind (h.look _) fun seen => ?_
  split
  · refine h.bind h.integer fun result => ?_
    cases result with
    | ok count => exact h.pure _
    | error fault => exact h.fail _
  · refine h.bind (h.look _) fun opening => ?_
    split
    · exact h.bind h.expression fun _ => h.pure _
    · exact h.pure none

theorem access (h : Compositional may known P) : P Access access :=
  h.line fun _ hbefore => h.token (h.failing (hbefore _)) fun _ _ => h.taking _

theorem bound (h : Compositional may known P) : P String bound := by
  refine h.bind (h.look _) fun opening => ?_
  split
  · exact h.bind h.expression fun _ => h.pure _
  · exact h.token (h.fail _) fun _ _ => h.pure _

theorem caseRule (h : Compositional may known P) : P CaseRule caseRule := by
  refine h.bind (h.text _) fun text => ?_
  split
  · exact h.pure _
  · exact h.fail _

theorem referencePath (h : Compositional may known P) : P String referencePath := by
  refine h.bind (h.text _) fun path => ?_
  split
  · split
    · exact h.fail _
    · split
      · exact h.fail _
      · exact h.pure _
  · exact h.fail _

theorem attachment (h : Compositional may known P) (info : Info) (here : Path) :
    P Info (attachment info here) := by
  refine h.bind h.name fun name => ?_
  exact h.table here.table
    (f := fun t => Reading.taking (t.condition name) >>= fun condition =>
      changing (info.attach condition here))
    fun _ => h.bind (h.taking _) fun _ => h.taking _

end Steps

/-! ## Clauses of elements and conditions -/

section Clauses

theorem typeClause (h : Compositional may known P) {opened : Nat} (e : Element)
    (hopened : ∀ cause, may { cause, line := opened }) : P Element (typeClause opened e) := by
  refine h.token (h.failing (hopened _)) fun token _ => h.bind (h.taking _) fun declared => ?_
  dsimp only
  split
  · exact h.bind (h.note _) fun _ => h.pure _
  · exact h.pure _

/-- What clauses about members have in common. -/
theorem member (h : Compositional may known P) (name : String)
    (add : Info → EStateM.Result Defect Element Unit) :
    P Element (Reading.member name add) :=
  h.bind (h.note _) fun _ => h.bind h.label? fun _ => h.bind h.help? fun _ =>
    h.bind (h.taking _) fun _ => h.taking _

theorem valueClause (h : Compositional may known P) (e : Element) :
    P Element (valueClause e) := by
  refine h.bind (h.taking _) fun type => ?_
  dsimp only
  split
  · exact h.bind h.memberName fun name => h.member name _
  · exact h.bind (h.text _) fun name => h.member name _

theorem referenceClause (h : Compositional may known P) (e : Element) :
    P Element (referenceClause e) := h.bind h.referencePath fun path => h.member path _

theorem elementClause [PatternCompiler] (h : Compositional may known P) {opened : Nat} (here : Path)
    (e : Element) (kind : ElementClause) (hopened : ∀ cause, may { cause, line := opened }) :
    P Element (elementClause opened here e kind) := by
  cases kind with
  | type => exact h.typeClause e hopened
  | access => exact h.bind h.access fun _ => h.bind (h.taking _) fun _ => h.pure _
  | min => exact h.bind h.bound fun _ => h.taking _
  | max => exact h.bind h.bound fun _ => h.taking _
  | default => exact h.bind (h.text _) fun _ => h.taking _
  | units => exact h.bind (h.text _) fun _ => h.taking _
  | pattern => exact h.bind (h.text _) fun _ => h.taking _
  | caseRule => exact h.bind h.caseRule fun _ => h.pure _
  | wording => exact h.bind (h.text _) fun _ => h.pure _
  | value => exact h.valueClause e
  | reference => exact h.referenceClause e
  | condition => exact h.bind (h.attachment _ _) fun _ => h.pure _

theorem elementClauses [PatternCompiler] (h : Compositional may known P) {opened : Nat}
    (here : Path) (bound : Nat) (e : Element) (hopened : ∀ cause, may { cause, line := opened }) :
    P Element (elementClauses opened here bound e) := by
  induction bound generalizing e with
  | zero => exact h.pure e
  | succ bound ih =>
    refine h.token (h.pure e) fun token hknown => ?_
    dsimp only
    split
    · exact h.bind (h.elementClause here e _ hopened) fun e => ih e
    · exact h.bind h.dropLine fun _ => ih e
    · exact h.bind (h.handBack hknown) fun _ => h.pure e

theorem conditionClause (h : Compositional may known P) (d : ConditionDraft)
    (kind : ConditionClause) : P ConditionDraft (conditionClause d kind) := by
  cases kind with
  | source | pattern | value => exact h.bind h.text? fun _ => h.pure _
  | operation | caseRule =>
    exact h.bind h.text? fun _ => h.bind (h.taking _) fun _ => h.pure _

theorem conditionClauses (h : Compositional may known P) (bound : Nat) (d : ConditionDraft) :
    P ConditionDraft (conditionClauses bound d) := by
  induction bound generalizing d with
  | zero => exact h.pure d
  | succ bound ih =>
    refine h.token (h.pure d) fun token hknown => ?_
    dsimp only
    split
    · exact h.bind (h.conditionClause d _) fun d => ih d
    · exact h.bind h.dropLine fun _ => ih d
    · exact h.bind (h.handBack hknown) fun _ => h.pure d

theorem globalError (h : Compositional may known P) : P Unit globalError :=
  h.bind h.name fun _ => h.bind (h.description? _) fun _ =>
    h.extending (Session.unlimited_onCatalogs _)

theorem errorClause (h : Compositional may known P) (g : Group) : P Group (errorClause g) :=
  h.bind h.name fun _ => h.bind (h.description? _) fun _ => h.taking _

theorem accessClause (h : Compositional may known P) (d : ListDraft) :
    P ListDraft (accessClause d) :=
  h.bind h.access fun _ => h.bind (h.taking _) fun _ => h.pure _

theorem attaching (h : Compositional may known P) (c : Collection) (here : Path) :
    P Collection (attaching c here) := h.bind (h.attachment _ _) fun _ => h.pure _

end Clauses

/-! ## Constructs

From here on failures are made for constructs as a whole.  Such a failure may occur wherever
another one on its line may. -/

section Constructs

/-- Whether a failure may occur is a matter of its line. -/
def ByLine (may : Failure → Prop) : Prop :=
  ∀ {line : Nat}, (∀ cause, may { cause, line }) → ∀ failure : Failure, failure.line = line →
    may failure

theorem capacity (h : Compositional may known P) {construct : Construct} {opened : Nat}
    (hfail : ∀ cause, may { cause, line := opened, construct := some construct }) :
    P Capacity (capacity construct opened) := by
  refine h.bind h.tokenText fun text => ?_
  split
  · exact h.pure _
  · exact h.failing (hfail _)

theorem keys (h : Compositional may known P) {construct : Construct} {opened : Nat}
    (hfail : ∀ cause, may { cause, line := opened, construct := some construct }) :
    P (List String) (keys construct opened) := by
  refine h.bind h.tokenText fun text => ?_
  split
  · exact h.pure _
  · exact h.failing (hfail _)

/-- Behind its name, an element fails for a step or when it is closed. -/
theorem element_behind [PatternCompiler] (h : Compositional may known P) (bound : Nat)
    (access : Access) (parent : Path) : ∃ rest : Nat → String → Reading Element,
      Reading.element bound access parent =
        Reading.line >>= (fun opened => Reading.name >>= rest opened) ∧
      ∀ opened name, (∀ cause, may { cause, line := opened }) →
        (∀ defect, may ⟨.defect defect, opened, some .element, some name⟩) →
        P Element (rest opened name) := by
  refine ⟨_, rfl, fun opened name hopened hfail => h.bind h.label? fun label =>
    h.bind h.help? fun help => h.bind (h.taking _) fun info => h.bind (h.note _) fun _ =>
    h.bind (h.elementClauses _ _ _ hopened) fun e => h.bind (h.closing hfail _) fun _ => ?_⟩
  dsimp only
  split
  · exact h.bind (h.onSession fun _ _ => rfl) fun _ => h.bind (h.tell rfl) fun _ => h.pure _
  · exact h.bind (h.tell rfl) fun _ => h.pure _

theorem element [PatternCompiler] (h : Compositional may known P) (hmay : ByLine may) (bound : Nat)
    (access : Access) (parent : Path) : P Element (element bound access parent) := by
  obtain ⟨rest, heq, hrest⟩ := h.element_behind bound access parent
  rw [heq]
  exact h.line fun opened hopened => h.bind h.name fun name =>
    hrest opened name hopened fun _ => hmay hopened _ rfl

theorem required (h : Compositional may known P) {opened : Nat} (part : Part)
    (text : Option String)
    (hfail : ∀ cause, may { cause, line := opened, construct := some .condition }) :
    P String (required opened part text) := by
  cases text with
  | none => exact h.failing (hfail _)
  | some text => exact h.pure text

theorem predicate (h : Compositional may known P) {opened : Nat} (d : ConditionDraft)
    (hfail : ∀ cause, may { cause, line := opened, construct := some .condition }) :
    P Predicate (predicate opened d) := by
  unfold Reading.predicate
  split <;> exact h.bind (h.required _ _ hfail) fun _ => h.pure _

/-- Behind its line, a condition fails for a step or for a part that is missing. -/
theorem condition_behind (h : Compositional may known P) (bound : Nat) :
    ∃ rest : Nat → Reading Unit, Reading.condition bound = Reading.line >>= rest ∧
      ∀ opened, (∀ cause, may { cause, line := opened, construct := some .condition }) →
        P Unit (rest opened) :=
  ⟨_, rfl, fun _ hfail => h.bind h.name fun _ => h.bind (h.conditionClauses _ _) fun _ =>
    h.bind (h.required _ _ hfail) fun _ => h.bind (h.taking _) fun source =>
    h.bind (h.predicate _ hfail) fun _ =>
    h.bind (h.extending (Session.unlimited_onTable source.table _)) fun _ => h.tell rfl⟩

theorem condition (h : Compositional may known P) (hmay : ByLine may) (bound : Nat) :
    P Unit (condition bound) := by
  obtain ⟨rest, heq, hrest⟩ := h.condition_behind bound
  rw [heq]
  exact h.line fun opened hopened => hrest opened fun _ => hmay hopened _ rfl

/-- What follows has the property if it has it for the values that `Q` holds of. -/
def Gives (P : (α : Type) → Reading α → Prop) (Q : α → Prop) (m : Reading α) : Prop :=
  ∀ {β : Type} (f : α → Reading β), (∀ a, Q a → P β (f a)) → P β (m >>= f)

variable {Q : α → Prop}

theorem gives_pure {a : α} (ha : Q a) : Gives P Q (Pure.pure a) := by
  intro β f hf
  rw [pure_bind]
  exact hf a ha

theorem gives_failing (h : Compositional may known P) {failure : Failure} (hfail : may failure) :
    Gives P Q fun p => .error failure p := fun _ _ => h.failing hfail

theorem gives_line (h : Compositional may known P) {f : Nat → Reading α}
    (hf : ∀ n, (∀ cause, may { cause, line := n }) → Gives P Q (f n)) :
    Gives P Q (Reading.line >>= f) := by
  intro β g hg
  rw [bind_assoc]
  exact h.line fun n hn => hf n hn g hg

theorem gives_bind (h : Compositional may known P) {m : Reading β} {f : β → Reading α}
    (hm : P β m) (hf : ∀ b, Gives P Q (f b)) : Gives P Q (m >>= f) := by
  intro γ g hg
  rw [bind_assoc]
  exact h.bind hm fun b => hf b g hg

/-- What follows a head that may have a count. -/
theorem gives_head (h : Compositional may known P) {count : Option Int} {info : Info}
    {rest : Head → Reading α} (hrest : ∀ head, Gives P Q (rest head)) :
    Gives P Q (headed count info rest) := by
  cases count with
  | none => exact h.gives_bind (h.pure _) hrest
  | some count => exact h.gives_bind (h.taking _) hrest

/-- What follows the opening of a list may rely on its line. -/
theorem openList (h : Compositional may known P) (hmay : ByLine may) (access : Access)
    (parent : Path) (outer : Nat) :
    Gives P (fun opening => ∀ cause, may { cause, line := opening.1.opened })
      (openList access parent outer) := by
  refine h.gives_line fun opened hopened => h.gives_bind h.name fun name =>
    h.gives_bind h.instances? fun count => ?_
  dsimp only
  split
  · exact fun _ _ => h.failing (hmay hopened _ rfl)
  · exact h.gives_bind (h.note _) fun _ => h.gives_bind h.label? fun _ =>
      h.gives_bind h.help? fun _ => h.gives_bind (h.taking _) fun _ =>
      h.gives_bind (h.note _) fun _ => h.gives_head fun _ => gives_pure hopened

theorem closeList (h : Compositional may known P) {place : ListPlace} (d : ListDraft)
    (hfail : ∀ defect, may ⟨.defect defect, place.opened, some .list, some d.collection.name⟩) :
    P Collection (closeList place d) := by
  refine h.settle _ .list Collection.name place.opened (fun limits defect => ?_)
    (f := fun c => do
      Reading.note (·.noteCollection c.head false)
      Reading.note (·.noteType .list)
      return c)
    fun c => h.bind (h.note _) fun _ => h.bind (h.note _) fun _ => h.pure c
  rw [Collection.settle_name]
  exact hfail defect

theorem adding (h : Compositional may known P) (c : Collection) (item : Item) :
    P Collection (adding c item) := h.taking _

/-- A list has the property if its clauses have it wherever a list can stand. -/
theorem list (h : Compositional may known P) (hmay : ByLine may)
    {clauses : ListPlace → ListDraft → Reading ListDraft} (access : Access) (parent : Path)
    (outer : Nat) (hclauses : ∀ place d, (∀ cause, may { cause, line := place.opened }) →
      P ListDraft (clauses place d)) : P Collection (list clauses access parent outer) :=
  h.openList hmay access parent outer _ fun opening hopened =>
    h.bind (hclauses opening.1 opening.2 hopened) fun d =>
    h.closeList d fun _ => hmay hopened _ rfl

theorem listClauses [PatternCompiler] (h : Compositional may known P) (hmay : ByLine may)
    (bound : Nat)
    (place : ListPlace) (d : ListDraft) (hopened : ∀ cause, may { cause, line := place.opened }) :
    P ListDraft (listClauses bound place d) := by
  -- A list inside is read with the bound that is left, so the induction covers all places.
  induction bound generalizing place d with
  | zero => exact h.pure d
  | succ bound ih =>
    refine h.token (h.pure d) fun token _ => ?_
    dsimp only
    split
    · exact h.bind (h.capacity fun _ => hmay hopened _ rfl) fun _ => ih _ _ hopened
    · exact h.bind (h.keys fun _ => hmay hopened _ rfl) fun _ => ih _ _ hopened
    · exact h.bind (h.accessClause d) fun _ => ih _ _ hopened
    · exact h.bind (h.element hmay _ _ _) fun _ => h.bind (h.adding _ _) fun _ => ih _ _ hopened
    · exact h.bind (h.list hmay _ _ _ ih) fun _ => h.bind (h.adding _ _) fun _ => ih _ _ hopened
    · exact h.bind (h.attaching _ _) fun _ => ih _ _ hopened
    · exact h.pure d
    · exact h.bind h.dropLine fun _ => ih _ _ hopened
    · exact h.failing (hmay hopened _ rfl)

theorem groupClauses [PatternCompiler] (h : Compositional may known P) (hmay : ByLine may)
    (place : GroupPlace)
    (bound : Nat) (g : Group) (hopened : ∀ cause, may { cause, line := place.opened }) :
    P Group (groupClauses place bound g) := by
  induction bound generalizing g with
  | zero => exact h.pure g
  | succ bound ih =>
    refine h.token (h.pure g) fun token hknown => ?_
    dsimp only
    split
    · exact h.bind (h.capacity fun _ => hmay hopened _ rfl) fun _ => ih _
    · exact h.bind (h.keys fun _ => hmay hopened _ rfl) fun _ => ih _
    · exact h.bind (h.attaching _ _) fun _ => ih _
    · exact h.bind (h.element hmay _ _ _) fun _ => h.bind (h.adding _ _) fun _ => ih _
    · exact h.bind (h.list hmay _ _ _ (h.listClauses hmay bound)) fun _ =>
        h.bind (h.adding _ _) fun _ => ih _
    · exact h.bind (h.errorClause g) fun _ => ih _
    · exact h.pure g
    · exact h.bind h.dropLine fun _ => ih _
    · exact h.bind (h.handBack hknown) fun _ => h.pure g

/-- What follows the opening of a group may rely on its line. -/
theorem openGroup (h : Compositional may known P) :
    Gives P (fun opening => ∀ cause, may { cause, line := opening.1.opened }) openGroup := by
  refine h.gives_line fun opened hopened => h.gives_bind h.tokenText fun word => ?_
  dsimp only
  split
  · exact h.gives_bind h.name fun _ => h.gives_bind h.instances? fun _ =>
      h.gives_bind h.label? fun _ => h.gives_bind h.help? fun _ => h.gives_bind (h.taking _) fun _ =>
      h.gives_bind (h.note _) fun _ => h.gives_head fun _ => gives_pure hopened
  · exact h.gives_failing (hopened _)

theorem closeGroup (h : Compositional may known P) {place : GroupPlace} (g : Group)
    (hfail : ∀ defect, may ⟨.defect defect, place.opened, some .group, some g.name⟩) :
    P Unit (closeGroup place g) :=
  h.settle g.body .group (fun _ => g.name) place.opened (fun _ => hfail)
    (f := fun body => do
      Reading.note (·.noteCollection body.head true)
      Reading.extending (Session.onTable place.here.table (Table.addGroup { g with body }))
      Reading.tell ((Event.ofSuccess Milestone.groupAdded.text "Group registered").details
        [("group", g.name), ("table", place.here.table.word),
          ("items", toString body.items.length), ("line", toString place.opened)]))
    fun _ => h.bind (h.note _) fun _ =>
      h.bind (h.extending (Session.unlimited_onTable place.here.table _)) fun _ => h.tell rfl

variable [PatternCompiler]

theorem group (h : Compositional may known P) (hmay : ByLine may) (bound : Nat) :
    P Unit (group bound) :=
  h.openGroup _ fun opening hopened =>
    h.bind (h.groupClauses hmay opening.1 bound opening.2 hopened) fun g =>
    h.closeGroup g fun _ => hmay hopened _ rfl

theorem statement (h : Compositional may known P) (hmay : ByLine may) (bound : Nat)
    (kind : Kind) : P Unit (statement bound kind) := by
  cases kind with
  | globalError => exact h.globalError
  | condition => exact h.condition hmay bound
  | group => exact h.group hmay bound

/-- **What holds of the steps of reading and is kept by `>>=` holds of whole sources.** -/
theorem statements (h : Compositional may known P) (hmay : ByLine may) (bound : Nat) :
    P Unit (statements bound) := by
  induction bound with
  | zero => exact h.pure ()
  | succ bound ih =>
    refine h.token (h.pure ()) fun token _ => ?_
    dsimp only
    split
    · exact h.bind (h.statement hmay bound _) fun _ => ih
    · exact h.bind h.dropLine fun _ => ih
    · exact h.fail _

end Constructs
end Compositional
end Statement.Reading
end DeviceSchema
