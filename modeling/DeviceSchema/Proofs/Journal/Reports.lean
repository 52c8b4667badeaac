import DeviceSchema.Description
import DeviceSchema.Proofs.CrossReference.Check
import DeviceSchema.Proofs.Reading.Compositional
import DeviceSchema.Proofs.Reading.Quiet
import DeviceSchema.Proofs.Token.Layout
import DeviceSchema.Text.Pattern

/-! # What a log says of a rejection

Each stage on the way from a source to a description logs what it does, and whatever stops
it is logged as an **error** by the stage that it stops.  A step **reports** its failures if
it adds no error to the log when it succeeds, and when it fails adds the errors that are due
to its failure (`Reports`).  Steps that report may follow one another, so it is enough to
look at each stage once.

Nothing is due to a failure inside a statement; it is the reading of the whole source that
logs it, and the check of a session logs its own faults.  So whoever makes a description
finds exactly one error in the log when it is rejected, with the code of the rejection, and
none otherwise (`ofFile_reports`).  There is one exception: a text that is no file is refused
for a word that is too long without any error in the log (`ofSource_reports`,
`unreported_small`).
-/
namespace DeviceSchema

namespace Event
variable {e : Event}

theorem detail_level (name value : String) : (e.detail name value).level = e.level := by
  unfold detail
  split <;> rfl

theorem detail_code (name value : String) : (e.detail name value).code = e.code := by
  unfold detail
  split <;> rfl

theorem details_level (ds : List (String × String)) : (e.details ds).level = e.level := by
  induction ds generalizing e with
  | nil => rfl
  | cons d rest ih => exact ih.trans (detail_level d.1 d.2)

theorem details_code (ds : List (String × String)) : (e.details ds).code = e.code := by
  induction ds generalizing e with
  | nil => rfl
  | cons d rest ih => exact ih.trans (detail_code d.1 d.2)

theorem isError_detail (name value : String) : (e.detail name value).isError = e.isError := by
  rw [isError, isError, detail_level]

theorem isError_details (ds : List (String × String)) : (e.details ds).isError = e.isError := by
  rw [isError, isError, details_level]

end Event

/-- The errors among events, in their order. -/
def errorsAmong (events : Array Event) : List Event := events.toList.filter Event.isError

section Errors
variable {events more : Array Event} {e : Event}

theorem errorsAmong_push_error (h : e.isError = true) :
    errorsAmong (events.push e) = errorsAmong events ++ [e] := by
  rw [errorsAmong, Array.toList_push, List.filter_append, List.filter_singleton, h]
  rfl

theorem errorsAmong_push_other (h : e.isError = false) :
    errorsAmong (events.push e) = errorsAmong events := by
  rw [errorsAmong, Array.toList_push, List.filter_append, List.filter_singleton, h, cond_false,
    List.append_nil]
  rfl

theorem errorsAmong_append :
    errorsAmong (events ++ more) = errorsAmong events ++ errorsAmong more := by
  rw [errorsAmong, Array.toList_append, List.filter_append]
  rfl

/-- Marks do not make errors of other events, nor the other way round. -/
theorem errorsAmong_map {mark : Event → Event} (hlevel : ∀ e, (mark e).level = e.level) :
    errorsAmong (events.map mark) = (errorsAmong events).map mark := by
  rw [errorsAmong, Array.toList_map, List.filter_map]
  congr 1
  refine List.filter_congr fun e _ => ?_
  rw [Function.comp_apply, Event.isError, Event.isError, hlevel]

end Errors

section Reports
variable {ε σ α β : Type} {events : σ → Array Event} {due : ε → List Event → Prop}

/-- The step adds no error to the log when it succeeds, and the errors that are due when it
fails. -/
def Reports (events : σ → Array Event) (due : ε → List Event → Prop) (m : EStateM ε σ α) :
    Prop :=
  ∀ p, match m p with
    | .ok _ q => errorsAmong (events q) = errorsAmong (events p)
    | .error failure q =>
      ∃ told, errorsAmong (events q) = errorsAmong (events p) ++ told ∧ due failure told

theorem Reports.ok {m : EStateM ε σ α} (h : Reports events due m) {p q : σ} {a : α}
    (hm : m p = .ok a q) : errorsAmong (events q) = errorsAmong (events p) := by
  have hp := h p
  rwa [hm] at hp

theorem Reports.error {m : EStateM ε σ α} (h : Reports events due m) {p q : σ} {failure : ε}
    (hm : m p = .error failure q) :
    ∃ told, errorsAmong (events q) = errorsAmong (events p) ++ told ∧ due failure told := by
  have hp := h p
  rwa [hm] at hp

theorem Reports.of_cases {m : EStateM ε σ α}
    (hok : ∀ p a q, m p = .ok a q → errorsAmong (events q) = errorsAmong (events p))
    (herror : ∀ p failure q, m p = .error failure q →
      ∃ told, errorsAmong (events q) = errorsAmong (events p) ++ told ∧ due failure told) :
    Reports events due m := by
  intro p
  cases hm : m p with
  | ok a q => exact hok p a q hm
  | error failure q => exact herror p failure q hm

theorem Reports.bind {m : EStateM ε σ α} {f : α → EStateM ε σ β} (hm : Reports events due m)
    (hf : ∀ a, Reports events due (f a)) : Reports events due (m >>= f) := by
  refine .of_cases (fun p b r h => ?_) fun p failure r h => ?_
  · obtain ⟨a, q, hq, hr⟩ := bind_ok.mp h
    exact ((hf a).ok hr).trans (hm.ok hq)
  · rcases bind_error.mp h with hr | ⟨a, q, hq, hr⟩
    · exact hm.error hr
    · obtain ⟨told, htold, hdue⟩ := (hf a).error hr
      exact ⟨told, by rw [htold, hm.ok hq], hdue⟩

theorem reports_pure {a : α} : Reports events due (pure a : EStateM ε σ α) := fun _ => rfl

end Reports

/-- One error with this code. -/
def IsReport (code : ErrorCode) (told : List Event) : Prop :=
  ∃ event, told = [event] ∧ event.code = code.text

/-- An error with its code is a report. -/
theorem isReport_ofError {code : ErrorCode} {message : String} {ds : List (String × String)} :
    IsReport code [(Event.ofError code.text message).details ds] :=
  ⟨_, rfl, Event.details_code ds⟩

/-! ## Statements -/

namespace Statement

/-- Nothing is due to a failure inside a statement. -/
theorem Reading.compositional_reports : Reading.Compositional (fun _ => True) (fun _ => True)
    fun _ m => Reports Progress.events (fun _ told => told = []) m where
  pure _ := reports_pure
  bind hm hf := hm.bind hf
  line hf := fun p => hf p.stream.line (fun _ => trivial) p
  fail _ := fun _ => ⟨[], (List.append_nil _).symm, rfl⟩
  failing _ := fun _ => ⟨[], (List.append_nil _).symm, rfl⟩
  token hnone hsome := .bind (fun _ => rfl) fun token => match token with
    | none => hnone
    | some token => hsome token trivial
  handBack {token} _ := by
    intro p
    unfold Reading.handBack
    cases p.stream.handBack token with
    | ok stream => rfl
    | error fault => exact ⟨[], (List.append_nil _).symm, rfl⟩
  dropLine := fun _ => rfl
  quoted := fun _ => rfl
  arithmetic := fun _ => rfl
  integer := fun _ => rfl
  look _ := fun _ => rfl
  table kind f hf := fun p => hf (p.session.table kind) p
  length length tooLong m hm := by
    refine .bind (fun _ => rfl) fun limits => ?_
    split
    · exact fun _ => ⟨[], (List.append_nil _).symm, rfl⟩
    · exact hm
  settle c construct name line hfail f hf := by
    refine .bind (fun _ => rfl) fun limits => .bind ?_ fun _ => hf _
    cases (c.settle limits).1 with
    | ok u => exact reports_pure
    | error defect => exact fun _ => ⟨[], (List.append_nil _).symm, rfl⟩
  onSession _ := fun _ => rfl
  extending {change} _ := by
    intro p
    unfold Reading.extending
    cases change p.session with
    | ok _ s => rfl
    | error defect s => exact ⟨[], (List.append_nil _).symm, rfl⟩
  tell h := fun _ => errorsAmong_push_other h

/-- **A source that is read has one error in its log if and only if it fails**: the event of
its failure. -/
theorem read_errors [PatternCompiler] (stream : Token.Stream) (s : Session) :
    errorsAmong (read stream s).progress.events =
      match (read stream s).result with
      | .ok _ => []
      | .error failure => [failure.event] := by
  have hreports : Reports Progress.events (fun _ told => told = []) readAll := fun p =>
    Reading.compositional_reports.statements (fun _ _ _ => trivial) _ p
  unfold read
  cases hread : readAll ⟨stream, s, #[.ofDebug "Starting syntax analysis"]⟩ with
  | ok u p =>
    have hcompletion : (completion p).isError = false := Event.isError_details _
    dsimp only
    rw [errorsAmong_push_other hcompletion, hreports.ok hread]
    rfl
  | error failure p =>
    have hfailure : failure.event.isError = true := Event.isError_details _
    obtain ⟨told, htold, rfl⟩ := hreports.error hread
    dsimp only
    rw [errorsAmong_push_error hfailure, htold]
    rfl

end Statement

/-! ## Checks -/

namespace CrossReference

theorem Fault.isError_event (fault : Fault) : fault.event.isError = true :=
  Event.isError_details _

namespace Checking

/-- A fault is due to be logged as its event. -/
abbrev ReportsFaults {α : Type} (m : Checking α) : Prop :=
  Reports Progress.events (fun fault told => told = [Fault.event fault]) m

theorem reportsFaults_tell {event : Event} (h : event.isError = false) :
    ReportsFaults (tell event) := fun _ => errorsAmong_push_other h

theorem reportsFaults_reporting {α : Type} (result : Except Fault α) :
    ReportsFaults (reporting result) := by
  cases result with
  | ok value => exact reports_pure
  | error fault => exact fun _ => ⟨_, errorsAmong_push_error fault.isError_event, rfl⟩

theorem reportsFaults_forM {α : Type} {f : α → Checking Unit} (h : ∀ a, ReportsFaults (f a))
    (xs : List α) : ReportsFaults (xs.forM f) := by
  induction xs with
  | nil => exact reports_pure
  | cons x rest ih => exact (h x).bind fun _ => ih

theorem reportsFaults_checkTable (t : Table) : ReportsFaults (checkTable t) :=
  (reportsFaults_reporting _).bind fun _ =>
    (reportsFaults_forM (fun _ => reportsFaults_tell (Event.isError_details _)) _).bind
      fun _ => reports_pure

theorem reportsFaults_storeRanges (found : List LengthRange) :
    ReportsFaults (storeRanges found) :=
  .bind (fun _ => rfl) fun _ => .bind (fun _ => rfl) fun _ => reportsFaults_reporting _

theorem reportsFaults_all : ReportsFaults all := by
  refine .bind (fun _ => rfl) fun s => (reportsFaults_tell (Event.isError_details _)).bind
    fun _ => (reportsFaults_reporting _).bind fun found => ?_
  refine (reportsFaults_tell rfl).bind fun _ => (reportsFaults_checkTable _).bind fun _ =>
    (reportsFaults_checkTable _).bind fun _ => (reportsFaults_tell rfl).bind fun _ =>
    (reportsFaults_storeRanges found).bind fun _ => ?_
  exact (reportsFaults_forM (fun _ => reportsFaults_tell (Event.isError_details _)) _).bind
    fun _ => (reportsFaults_tell rfl).bind fun _ => reports_pure

end Checking
end CrossReference

/-! ## Files -/

namespace Storage.SourceFile.Opening

/-- A fault is due to be logged with its code. -/
abbrev ReportsFaults {α : Type} (m : Opening α) : Prop :=
  Reports (fun events => events) (fun fault => IsReport (Fault.code fault)) m

theorem reportsFaults_tell {event : Event} (h : event.isError = false) :
    ReportsFaults (tell event) := fun _ => errorsAmong_push_other h

theorem reportsFaults_fail {α : Type} {fault : Fault} {message : String}
    {ds : List (String × String)} : ReportsFaults (fail fault message ds : Opening α) :=
  fun _ => ⟨_, errorsAmong_push_error (Event.isError_details ds), isReport_ofError⟩

/-- Whatever would follow a fault is not done. -/
theorem reportsFaults_fail_bind {α β : Type} {fault : Fault} {message : String}
    {ds : List (String × String)} {f : α → Opening β} :
    ReportsFaults (fail fault message ds >>= f) :=
  fun _ => ⟨_, errorsAmong_push_error (Event.isError_details ds), isReport_ofError⟩

theorem reportsFaults_contents (path : String) (lookup : Lookup) :
    ReportsFaults (contents path lookup) := by
  cases lookup with
  | file found bytes => exact reports_pure
  | absent | directory | denied | unreadable => exact reportsFaults_fail

theorem reportsFaults_checkFile (preferences : Preferences) (path : String) (size : Nat)
    (extension : Option String) : ReportsFaults (checkFile preferences path size extension) := by
  unfold checkFile
  repeat' split
  · exact reportsFaults_fail
  · exact reportsFaults_fail
  · exact reportsFaults_fail
  · exact reports_pure

theorem reportsFaults_decode (preferences : Preferences) (path found : String)
    (bytes : ByteArray) : ReportsFaults (decode preferences path found bytes) := by
  unfold decode
  repeat' split
  · exact reports_pure
  · exact (reportsFaults_tell (Event.isError_details _)).bind fun _ => reports_pure
  · exact reportsFaults_fail

theorem isError_completion (preferences : Preferences) (path : String) (m : Metadata) :
    (completion preferences path m).isError = false := by
  unfold completion
  split
  · exact Event.isError_details _
  · exact Event.isError_details _

theorem reportsFaults_sourceFile (preferences : Preferences) (path : String) (lookup : Lookup) :
    ReportsFaults (sourceFile preferences path lookup) := by
  refine (reportsFaults_tell (Event.isError_detail _ _)).bind fun _ => ?_
  split
  · exact reportsFaults_fail_bind
  · refine (reportsFaults_contents path lookup).bind fun found => ?_
    dsimp only
    refine (reportsFaults_checkFile _ _ _ _).bind fun _ =>
      (reportsFaults_decode _ _ _ _).bind fun decoded => ?_
    split
    · exact reportsFaults_fail_bind
    · exact (reportsFaults_tell (isError_completion _ _ _)).bind fun _ => reports_pure

end Storage.SourceFile.Opening

/-! ## Descriptions -/

namespace Description
open Statement

/-- One error with the code of the rejection is due. -/
def Due (rejection : Rejection) (told : List Event) : Prop := IsReport rejection.code told

namespace Making

/-- A rejection is due to be logged with its code. -/
abbrev ReportsRejections {α : Type} (m : Making α) : Prop :=
  Reports (fun events => events) Due m

theorem reports_tell {event : Event} (h : event.isError = false) :
    ReportsRejections (tell event) := fun _ => errorsAmong_push_other h

theorem reports_statements [PatternCompiler] (stream : Token.Stream) (limits : Limits) :
    ReportsRejections (statements stream limits) := by
  intro events
  have herrors := read_errors stream (.ofLimits limits)
  unfold statements
  dsimp only
  cases hresult : (read stream (.ofLimits limits)).result with
  | ok u =>
    rw [hresult] at herrors
    dsimp only at herrors ⊢
    rw [errorsAmong_append, herrors, List.append_nil]
  | error failure =>
    rw [hresult] at herrors
    have hreport : IsReport failure.code [failure.event] := isReport_ofError
    exact ⟨_, by rw [errorsAmong_append, herrors], hreport⟩

theorem reports_checkGroups (s : Session) (name : String) :
    ReportsRejections (checkGroups s name) := by
  intro events
  unfold checkGroups
  by_cases hgroups : s.groupCount = 0
  · rw [if_pos hgroups]
    exact ⟨_, errorsAmong_push_error rfl, ⟨_, rfl, rfl⟩⟩
  · rw [if_neg hgroups]

theorem reports_crossReferences (s : Session) (line : Nat) :
    ReportsRejections (crossReferences s line) := by
  intro events
  have hall := CrossReference.Checking.reportsFaults_all ⟨s, events⟩
  unfold crossReferences CrossReference.check
  cases hcheck : CrossReference.Checking.all ⟨s, events⟩ with
  | ok counts p =>
    rw [hcheck] at hall
    exact hall
  | error fault p =>
    rw [hcheck] at hall
    obtain ⟨told, htold, rfl⟩ := hall
    exact ⟨_, htold, isReport_ofError⟩

theorem reports_ofStream [PatternCompiler] (name : String) (stream : Token.Stream) (limits : Limits)
    (metadata : Option Storage.Metadata) :
    ReportsRejections (ofStream name stream limits metadata) :=
  (reports_statements stream limits).bind fun _ => (reports_checkGroups _ name).bind fun _ =>
    (reports_crossReferences _ _).bind fun _ =>
    (reports_tell (Event.isError_details _)).bind fun _ => reports_pure

theorem reports_ofSource [PatternCompiler] (name : String) {source : String} {stream : Token.Stream}
    (limits : Limits) (hstream : Token.Stream.ofSource source = .ok stream) :
    ReportsRejections (ofSource name source limits) := by
  refine (reports_tell (Event.isError_detail _ _)).bind fun _ => ?_
  rw [hstream]
  exact reports_ofStream _ _ _ _

theorem reports_openFile (preferences : Storage.Preferences) (path : String)
    (lookup : Storage.Lookup) : ReportsRejections (openFile preferences path lookup) := by
  intro events
  have hfile := Storage.SourceFile.Opening.reportsFaults_sourceFile preferences path lookup events
  unfold openFile
  cases hopen : Storage.SourceFile.Opening.sourceFile preferences path lookup events with
  | ok file told =>
    rw [hopen] at hfile
    exact hfile
  | error fault told =>
    rw [hopen] at hfile
    exact hfile

theorem reports_streamOf (file : Storage.SourceFile) :
    ReportsRejections (streamOf file) := by
  intro events
  unfold streamOf
  cases Token.Stream.ofSource file.source with
  | ok stream => exact errorsAmong_push_other (Event.isError_details _)
  | error fault =>
    exact ⟨_, errorsAmong_push_error (Event.isError_detail _ _), _, rfl, Event.detail_code _ _⟩

theorem reports_ofFile [PatternCompiler] (preferences : Storage.Preferences) (path : String)
    (lookup : Storage.Lookup) (limits : Limits) :
    ReportsRejections (ofFile preferences path lookup limits) :=
  (reports_tell (Event.isError_detail _ _)).bind fun _ =>
    (reports_openFile preferences path lookup).bind fun file => (reports_streamOf file).bind
    fun stream => reports_ofStream _ stream limits _

end Making

/-- The errors in the log of an outcome. -/
def Outcome.errors (outcome : Outcome) : List Event := errorsAmong outcome.events

/-- **Making a description leaves one error in the log if it ends with a rejection, with its
code, and none if it does not**, also if a mark is put on the events. -/
theorem errors_outcome {making : Making Description} (h : Making.ReportsRejections making)
    {mark : Event → Event} (hlevel : ∀ e, (mark e).level = e.level)
    (hcode : ∀ e, (mark e).code = e.code) :
    match (making.outcome mark).result with
    | .ok _ => (making.outcome mark).errors = []
    | .error rejection => ∃ event, (making.outcome mark).errors = [event] ∧
      event.code = rejection.code.text := by
  have hmade := h #[]
  unfold Making.outcome
  cases hrun : making #[] with
  | ok d events =>
    rw [hrun] at hmade
    exact (errorsAmong_map hlevel).trans (congrArg (List.map mark) hmade)
  | error rejection events =>
    rw [hrun] at hmade
    obtain ⟨told, htold, event, rfl, hevent⟩ := hmade
    have htold : errorsAmong events = [event] := htold
    refine ⟨mark event, ?_, (hcode event).trans hevent⟩
    exact (errorsAmong_map hlevel).trans (congrArg (List.map mark) htold)

theorem inFile_level (e : Event) (path : String) (number : Nat) :
    (e.inFile path number).level = e.level :=
  (Event.detail_level _ _).trans (Event.detail_level _ _)

theorem inFile_code (e : Event) (path : String) (number : Nat) :
    (e.inFile path number).code = e.code :=
  (Event.detail_code _ _).trans (Event.detail_code _ _)

/-- **Whoever makes a description from a file finds one error in the log if it is rejected, with
the code of the rejection, and none if it is not.** -/
theorem ofFile_reports [PatternCompiler] (preferences : Storage.Preferences) (path : String)
    (lookup : Storage.Lookup) (limits : Limits) (namesFile : Bool) :
    match (ofFile preferences path lookup limits namesFile).result with
    | .ok _ => (ofFile preferences path lookup limits namesFile).errors = []
    | .error rejection => ∃ event,
      (ofFile preferences path lookup limits namesFile).errors = [event] ∧
        event.code = rejection.code.text := by
  have hlevel (e : Event) : (if namesFile then e.inFile path 0 else e).level = e.level := by
    split
    · exact inFile_level e path 0
    · rfl
  have hcode (e : Event) : (if namesFile then e.inFile path 0 else e).code = e.code := by
    split
    · exact inFile_code e path 0
    · rfl
  exact errors_outcome (Making.reports_ofFile preferences path lookup limits) hlevel hcode

/-- A text that has no stream is rejected without an error in the log. -/
theorem ofSource_refused [PatternCompiler] (name : String) {source : String} (limits : Limits)
    {fault : Token.Fault} (hstream : Token.Stream.ofSource source = .error fault) :
    (ofSource name source limits).result = .error (.tokens fault) ∧
      (ofSource name source limits).errors = [] := by
  unfold ofSource Making.outcome Making.ofSource
  simp only [Bind.bind, EStateM.bind, Making.tell, hstream]
  refine ⟨rfl, (errorsAmong_map fun e => inFile_level e name 0).trans ?_⟩
  rw [errorsAmong_push_other (Event.isError_detail _ _)]
  rfl

/-- **Whoever makes a description from a text finds one error in the log if it is rejected, with
the code of the rejection, and none if it is not, unless a word of the text is too long**: then
it is rejected without an error in the log. -/
theorem ofSource_reports [PatternCompiler] (name source : String) (limits : Limits) :
    match Token.Stream.ofSource source, (ofSource name source limits).result with
    | .error fault, result =>
      result = .error (.tokens fault) ∧ (ofSource name source limits).errors = []
    | .ok _, .ok _ => (ofSource name source limits).errors = []
    | .ok _, .error rejection => ∃ event, (ofSource name source limits).errors = [event] ∧
      event.code = rejection.code.text := by
  cases hstream : Token.Stream.ofSource source with
  | error fault => exact ofSource_refused name limits hstream
  | ok stream =>
    have houtcome := errors_outcome (Making.reports_ofSource name limits hstream)
      (fun e => inFile_level e name 0) fun e => inFile_code e name 0
    cases hresult : (ofSource name source limits).result with
    | ok d =>
      unfold ofSource at hresult
      rwa [hresult] at houtcome
    | error rejection =>
      unfold ofSource at hresult
      rwa [hresult] at houtcome

/-- A text that is one word of many characters. -/
theorem ofSource_overlong {word : List Char} (hword : ∀ c ∈ word, Text.isBlank c = false)
    (hlong : Ceiling.wordLength < word.length) :
    Token.Stream.ofSource (String.ofList word) =
      .error (.tokenTooLong 1 word.length Ceiling.wordLength) := by
  have hne : word ≠ [] := List.ne_nil_of_length_pos (Nat.zero_lt_of_lt hlong)
  have hline : '\n' ∉ word := fun hmem => absurd (hword _ hmem) (by decide)
  have hlines : Token.Stream.numberedLines (String.ofList word) = [⟨1, word⟩] := by
    rw [Token.Stream.numberedLines, String.toList_ofList, Token.lines_of_notMem hline]
    simp [hne]
  have hwords : Text.words word = [word] := by
    rw [Text.words, List.splitOnP_eq_singleton fun c hc => by simp [hword c hc]]
    simp [hne]
  have hoverlong : Token.Stream.overlongWord? [⟨1, word⟩] = some (1, word.length) := by
    simp [Token.Stream.overlongWord?, hwords, hlong]
  unfold Token.Stream.ofSource
  simp only [hlines, hoverlong]

/-- A word that is by one character too long. -/
def overlongWord : List Char := List.replicate 4097 'a'

attribute [local instance] Text.Pattern.compiler in
/-- **A text can be rejected without an error in the log.** -/
theorem unreported_small : ∃ rejection,
    (ofSource "small" (String.ofList overlongWord) {}).result = .error rejection ∧
      ¬ ∃ event, (ofSource "small" (String.ofList overlongWord) {}).errors = [event] ∧
        event.code = rejection.code.text := by
  have hword : ∀ c ∈ overlongWord, Text.isBlank c = false := by
    intro c hc
    rw [(List.mem_replicate.mp hc).2]
    decide
  have hlong : Ceiling.wordLength < overlongWord.length := by
    rw [overlongWord, List.length_replicate]
    decide
  obtain ⟨hresult, herrors⟩ := ofSource_refused "small" {} (ofSource_overlong hword hlong)
  refine ⟨_, hresult, ?_⟩
  rintro ⟨event, hevent, -⟩
  rw [herrors] at hevent
  cases hevent

end Description
end DeviceSchema
