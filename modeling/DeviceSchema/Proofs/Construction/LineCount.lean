import DeviceSchema.Description
import DeviceSchema.Proofs.Construction.ListEnd
import DeviceSchema.Text.Pattern

/-! # The number of lines of a description

A description says how many lines its source has, and so does a fault that shows when all
lines have been read.  Nothing counts these lines: the number is that of the line which the
stream is on when reading ends.  For a file, there is a second number, which is counted.

The two are the same because a stream **tallies**: the number of its line and the number of
lines ahead add up to all lines (`Stream.Tallies`).  Entering a line keeps this up, and so does
going back to a token that waits, as this token is on the line of the stream.  Reading ends when
there is no token, and then no line is ahead (`Tallies.line_of_next_none`).
-/
namespace DeviceSchema

/-- Line feeds end lines, and what stands behind the last one is a line, too. -/
theorem Text.lineCount_eq (text : List Char) : lineCount text =
    text.count '\n' + if text.getLast?.all (· == '\n') then 0 else 1 := by
  induction text using Token.byLines with
  | last text hlast =>
    rw [lineCount, Token.lines_of_notMem hlast, List.count_eq_zero.mpr hlast]
    rcases List.eq_nil_or_concat text with rfl | ⟨init, c, rfl⟩
    · rfl
    · have hc : c ≠ '\n' := by
        rintro rfl
        exact hlast (by simp)
      simp [hc]
  | ended line below hline ih =>
    have hend : ((line ++ '\n' :: below).getLast?.all (· == '\n')) =
        below.getLast?.all (· == '\n') := by
      rw [List.getLast?_append]
      cases below with
      | nil => rfl
      | cons c rest => rw [List.getLast?_cons_cons, List.getLast?_eq_some_getLast (by simp)]; rfl
    rw [hend, lineCount, Token.lines_append_newline hline, List.length_cons, ← lineCount, ih,
      List.count_append, List.count_cons_self, List.count_eq_zero.mpr hline]
    omega

/-- What is known of a source file tells its lines. -/
theorem Storage.SourceFile.Opening.lineCount_of_ok {preferences : Storage.Preferences}
    {path : String} {lookup : Storage.Lookup} {events events' : Array Event}
    {file : Storage.SourceFile}
    (h : sourceFile preferences path lookup events = .ok file events') :
    file.metadata.lineCount = Text.lineCount file.source.toList := by
  obtain ⟨u₁, e₁, -, h⟩ := bind_ok.mp h
  split at h
  · cases h
  obtain ⟨⟨found, bytes⟩, e₂, -, h⟩ := bind_ok.mp h
  obtain ⟨u₂, e₃, -, h⟩ := bind_ok.mp h
  obtain ⟨⟨source, encoding⟩, e₄, -, h⟩ := bind_ok.mp h
  dsimp only at h
  split at h
  · cases h
  obtain ⟨u₃, e₅, -, h⟩ := bind_ok.mp h
  cases h
  rfl

namespace Token
open Text

/-- The lines are numbered in their order, the last of them `count`. -/
def CountedTo (count : Nat) : List Line → Prop
  | [] => True
  | next :: below => next.number + below.length = count ∧ CountedTo count below

namespace Stream

/-- The lines up to the one that the stream is on and the lines ahead are `count` lines. -/
structure Tallies (count : Nat) (s : Stream) : Prop where
  ahead : CountedTo count s.ahead
  line : s.line + s.ahead.length = count

section Tallying
variable {count : Nat} {s s' : Stream} {t : Token}

theorem Tallies.enterLines {line : Nat} {ahead : List Line} (hahead : CountedTo count ahead)
    (hline : line + ahead.length = count) :
    CountedTo count (enterLines line ahead).2.2 ∧
      (Stream.enterLines line ahead).2.1 + (Stream.enterLines line ahead).2.2.length = count := by
  induction ahead generalizing line with
  | nil => exact ⟨hahead, hline⟩
  | cons next below ih =>
    obtain ⟨hnext, hbelow⟩ := hahead
    rw [Stream.enterLines]
    cases (Cursor.atLine next below).word? with
    | none => exact ih hbelow hnext
    | some c => exact ⟨hbelow, hnext⟩

theorem Tallies.seek (h : s.Tallies count) : s.seek.2.Tallies count := by
  obtain ⟨hahead, hline⟩ := Tallies.enterLines h.ahead h.line
  unfold Stream.seek
  split
  · exact ⟨h.ahead, h.line⟩
  · exact ⟨hahead, hline⟩

theorem Tallies.next (h : s.Tallies count) : s.next.2.Tallies count := by
  have hseek := h.seek
  unfold Stream.next
  split
  · exact ⟨h.ahead, h.line⟩
  · cases hfound : s.seek with
    | mk found s' =>
      rw [hfound] at hseek
      cases found with
      | none => exact hseek
      | some c => exact ⟨hseek.ahead, hseek.line⟩

theorem Tallies.handBack (h : s.Tallies count) (hback : s.handBack t = .ok s') :
    s'.Tallies count := by
  obtain ⟨-, rfl⟩ := handBack_eq_ok.mp hback
  exact ⟨h.ahead, h.line⟩

/-- A token that waits is on the line of the stream, so going back to it changes no number. -/
theorem Tallies.rewind (h : s.Tallies count) (hexact : s.Obeys .exact) :
    s.rewind.Tallies count := by
  unfold Stream.rewind
  split
  · rename_i t hback
    have ht : t.line = s.line := hexact.handedBack t hback
    exact ⟨h.ahead, by rw [ht]; exact h.line⟩
  · exact h

theorem Tallies.nextQuoted (h : s.Tallies count) (hexact : s.Obeys .exact) :
    s.nextQuoted.2.Tallies count := by
  have hseek := (h.rewind hexact).seek
  unfold Stream.nextQuoted
  cases hfound : s.rewind.seek with
  | mk found s' =>
    rw [hfound] at hseek
    cases found with
    | none => exact hseek
    | some c =>
      dsimp only
      split
      · exact hseek
      · exact ⟨hseek.ahead, hseek.line⟩

theorem Tallies.nextInt (h : s.Tallies count) : s.nextInt.2.Tallies count := by
  unfold Stream.nextInt
  dsimp only
  split <;> exact h.next

theorem Tallies.nextExpression (h : s.Tallies count) : s.nextExpression.2.Tallies count := by
  unfold Stream.nextExpression
  exact gather_keeps (Tallies count) (fun _ hs => hs.next) h _ _

/-- When there is no token, no line is ahead. -/
theorem Tallies.line_of_next_none (h : s'.Tallies count) (hnext : s.next = (none, s')) :
    s'.line = count := by
  obtain ⟨last, rfl⟩ := exhausted_of_next_none hnext
  exact h.line

end Tallying

theorem countedTo_numbered (index : Nat) (texts : List (List Char)) :
    CountedTo (index + texts.length) (numbered index texts) := by
  induction texts generalizing index with
  | nil => exact trivial
  | cons text texts ih =>
    have hbelow := ih (index + 1)
    rw [Nat.add_right_comm, Nat.add_assoc] at hbelow
    rw [numbered_cons]
    refine ⟨?_, hbelow⟩
    rw [length_numbered, List.length_cons]
    dsimp only
    omega

/-- At the start all lines are ahead. -/
theorem tallies_ofSource {source : String} {s : Stream} (h : ofSource source = .ok s) :
    s.Tallies (lineCount source.toList) := by
  have hlines : CountedTo (lineCount source.toList) (numberedLines source) := by
    have hcounted := countedTo_numbered 0 (lines source.toList)
    rwa [Nat.zero_add, ← numberedLines_eq] at hcounted
  have hlength : (numberedLines source).length = lineCount source.toList := by
    rw [numberedLines_eq, length_numbered, lineCount]
  rw [eq_of_ofSource h]
  exact ⟨hlines, (Nat.zero_add _).trans hlength⟩

end Stream
end Token

namespace Statement

/-- Streams that tally, with a token on loan on their line. -/
theorem Reading.keptUp_tallies (count : Nat) : Reading.KeptUp fun held s =>
    (s.Obeys .exact ∧ ∀ t ∈ held, t.line = s.line) ∧ s.Tallies count where
  settled h := ⟨(Reading.keptUp_obeys .exact).settled h.1, h.2⟩
  next h := ⟨(Reading.keptUp_obeys .exact).next h.1, h.2.next⟩
  handBack h hback := ⟨(Reading.keptUp_obeys .exact).handBack h.1 hback, h.2.handBack hback⟩
  dropLine h := ⟨(Reading.keptUp_obeys .exact).dropLine h.1, h.2.ahead, h.2.line⟩
  quoted h := ⟨(Reading.keptUp_obeys .exact).quoted h.1, h.2.nextQuoted h.1.1⟩
  expression h := ⟨(Reading.keptUp_obeys .exact).expression h.1, h.2.nextExpression⟩
  integer h := ⟨(Reading.keptUp_obeys .exact).integer h.1, h.2.nextInt⟩

/-- What operations on a stream keep up, the reading of a source keeps up. -/
theorem read_keeps [PatternCompiler] {inv : Option Token → Token.Stream → Prop}
    (hkept : Reading.KeptUp inv) {stream : Token.Stream} (s : Session) (h : inv none stream) :
    inv none (read stream s).progress.stream := by
  have hafter : inv none (Reading.after (Reading.statements (stream.unread + 1))
      ⟨stream, s, #[.ofDebug "Starting syntax analysis"]⟩).stream :=
    Reading.orderly_statements.keeps hkept h
  unfold read readAll
  unfold Reading.after at hafter
  split
  · rename_i hread
    rwa [hread] at hafter
  · rename_i hread
    rwa [hread] at hafter

/-- **When a source has been read, the stream is on its last line.** -/
theorem line_of_read [PatternCompiler] {source : String} {stream : Token.Stream} {s : Session}
    (hstream : Token.Stream.ofSource source = .ok stream)
    (h : (read stream s).result = .ok ()) :
    (read stream s).progress.stream.line = Text.lineCount source.toList := by
  have hstart : stream.Tallies (Text.lineCount source.toList) :=
    Token.Stream.tallies_ofSource hstream
  have hexact : stream.Obeys .exact := Token.Stream.exact_ofSource hstream
  obtain ⟨-, hend⟩ := read_keeps (Reading.keptUp_tallies (Text.lineCount source.toList)) s
    ⟨⟨hexact, nofun⟩, hstart⟩
  have hback : stream.handedBack = none := by rw [Token.Stream.eq_of_ofSource hstream]
  obtain ⟨before, hnext⟩ := exists_next_none hback h
  exact hend.line_of_next_none hnext

end Statement

namespace Description
open Statement

namespace Making
variable [PatternCompiler]
variable {name source path : String} {stream : Token.Stream} {limits : Limits}
variable {metadata : Option Storage.Metadata} {events events' : Array Event} {d : Description}

theorem statements_ok {p : Statement.Progress}
    (h : statements stream limits events = .ok p events') :
    (read stream (.ofLimits limits)).result = .ok () ∧
      p = (read stream (.ofLimits limits)).progress := by
  unfold statements at h
  dsimp only at h
  split at h
  · rename_i u hread
    cases h
    exact ⟨hread, rfl⟩
  · cases h

/-- A description has the number of the line on which reading ended. -/
theorem ofStream_ok (h : ofStream name stream limits metadata events = .ok d events') :
    (read stream (.ofLimits limits)).result = .ok () ∧
      d.lineCount = (read stream (.ofLimits limits)).progress.stream.line ∧
      d.metadata = metadata := by
  obtain ⟨p, e₁, hread, h⟩ := bind_ok.mp h
  obtain ⟨u, e₂, -, h⟩ := bind_ok.mp h
  obtain ⟨⟨session, counts⟩, e₃, -, h⟩ := bind_ok.mp h
  obtain ⟨u', e₄, -, h⟩ := bind_ok.mp h
  obtain ⟨hresult, rfl⟩ := statements_ok hread
  cases h
  exact ⟨hresult, rfl, rfl⟩

/-- So does a fault of a cross-reference. -/
theorem ofStream_error {fault : CrossReference.Fault} {line : Nat}
    (h : ofStream name stream limits metadata events = .error (.crossReference fault line) events') :
    (read stream (.ofLimits limits)).result = .ok () ∧
      line = (read stream (.ofLimits limits)).progress.stream.line := by
  rcases bind_error.mp h with h | ⟨p, e₁, hread, h⟩
  · unfold statements at h
    dsimp only at h
    split at h <;> cases h
  obtain ⟨hresult, rfl⟩ := statements_ok hread
  refine ⟨hresult, ?_⟩
  rcases bind_error.mp h with h | ⟨u, e₂, -, h⟩
  · unfold checkGroups at h
    split at h <;> cases h
  rcases bind_error.mp h with h | ⟨⟨session, counts⟩, e₃, -, h⟩
  · unfold crossReferences at h
    dsimp only at h
    split at h <;> cases h
    rfl
  · rcases bind_error.mp h with h | ⟨u', e₄, -, h⟩ <;> cases h

theorem ofSource_ok (h : ofSource name source limits events = .ok d events') :
    d.lineCount = Text.lineCount source.toList := by
  obtain ⟨u, e₁, -, h⟩ := bind_ok.mp h
  cases hstream : Token.Stream.ofSource source with
  | ok stream =>
    rw [hstream] at h
    obtain ⟨hread, hline, -⟩ := ofStream_ok h
    exact hline.trans (line_of_read hstream hread)
  | error fault =>
    rw [hstream] at h
    cases h

theorem ofSource_error {fault : CrossReference.Fault} {line : Nat}
    (h : ofSource name source limits events = .error (.crossReference fault line) events') :
    line = Text.lineCount source.toList := by
  rcases bind_error.mp h with h | ⟨u, e₁, -, h⟩
  · cases h
  cases hstream : Token.Stream.ofSource source with
  | ok stream =>
    rw [hstream] at h
    obtain ⟨hread, hline⟩ := ofStream_error h
    exact hline.trans (line_of_read hstream hread)
  | error fault' =>
    rw [hstream] at h
    cases h

theorem ofFile_ok {preferences : Storage.Preferences} {lookup : Storage.Lookup}
    (h : ofFile preferences path lookup limits events = .ok d events') :
    d.metadata.map Storage.Metadata.lineCount = some d.lineCount := by
  obtain ⟨u, e₁, -, h⟩ := bind_ok.mp h
  obtain ⟨file, e₂, hopen, h⟩ := bind_ok.mp h
  obtain ⟨stream, e₃, hscan, h⟩ := bind_ok.mp h
  have hfile : file.metadata.lineCount = Text.lineCount file.source.toList := by
    unfold openFile at hopen
    split at hopen
    · rename_i hsource
      cases hopen
      exact Storage.SourceFile.Opening.lineCount_of_ok hsource
    · cases hopen
  have hstream : Token.Stream.ofSource file.source = .ok stream := by
    unfold streamOf at hscan
    split at hscan
    · rename_i hstream
      cases hscan
      exact hstream
    · cases hscan
  obtain ⟨hread, hline, hmetadata⟩ := ofStream_ok h
  rw [hmetadata, Option.map_some, hfile, hline, line_of_read hstream hread]

end Making

/-- **A description, and a fault that shows when all lines have been read, tell the number of
lines of the source.  For a file, this is the number that is known of it.** -/
theorem lines_told [PatternCompiler] (limits : Limits) :
    (∀ name source : String,
      match (ofSource name source limits).result with
      | .ok d => d.lineCount = Text.lineCount source.toList
      | .error (.crossReference _ line) => line = Text.lineCount source.toList
      | .error _ => True) ∧
    ∀ (preferences : Storage.Preferences) (path : String) (lookup : Storage.Lookup)
      (namesFile : Bool),
      match (ofFile preferences path lookup limits namesFile).result with
      | .ok d => d.metadata.map Storage.Metadata.lineCount = some d.lineCount
      | .error _ => True := by
  constructor
  · intro name source
    unfold ofSource Making.outcome
    cases hmade : Making.ofSource name source limits #[] with
    | ok d events => exact Making.ofSource_ok hmade
    | error rejection events =>
      cases rejection with
      | crossReference fault line => exact Making.ofSource_error hmade
      | file | tokens | statement | noGroups => exact trivial
  · intro preferences path lookup namesFile
    unfold ofFile Making.outcome
    cases hmade : Making.ofFile preferences path lookup limits #[] with
    | ok d events => exact Making.ofFile_ok hmade
    | error rejection events => exact trivial

attribute [local instance] Text.Pattern.compiler in
/-- Lines without a token behind the last one count, too. -/
example : (ofSource "small"
    "group setting g \"G\"\nelement e \"E\" type on_off\nend # end\n\r\n \n# \"" {}).result.toOption.map
      lineCount = some 6 := by
  decide +kernel

end Description
end DeviceSchema
