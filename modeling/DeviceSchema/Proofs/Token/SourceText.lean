import DeviceSchema.Proofs.Token.Left

/-! # The text of a source

A source is read line by line, so its text is that of its lines, with a line feed at the end of
each (`sourceText`); a carriage return that belongs to a line end is no part of it.  This is what
is left to read at the start (`ofSource_left`).  Whether a source is refused depends on the words of
this text (`exists_ofSource_iff`), and how much of a stream is unread on what is left
(`Sound.unread_eq`).
-/
namespace DeviceSchema.Token
open Text

/-- The text of the lines of a source. -/
def sourceText (source : String) : List Char := (lines source.toList).flatMap (· ++ ['\n'])

section Lines

theorem joined_eq (ls : List Line) : joined ls = (ls.map Line.text).flatMap (· ++ ['\n']) := by
  rw [joined, List.flatMap_map]

theorem words_joined (ls : List Line) : words (joined ls) = ls.flatMap fun l => words l.text := by
  induction ls with
  | nil => rfl
  | cons next below ih =>
    rw [joined_cons, Cursor.left, List.flatMap_cons, ← ih]
    exact words_append_blank isBlank_newline _ _

theorem inked_joined (ls : List Line) :
    Stream.inked (joined ls) = Stream.inked (ls.flatMap Line.text) := by
  induction ls with
  | nil => rfl
  | cons next below ih =>
    rw [joined_cons, Cursor.left, List.flatMap_cons, inked_append, inked_append, ← ih]
    simp [Stream.inked, isBlank_newline, Cursor.atLine]

/-- No line has a line feed in it. -/
theorem newline_notMem_lines (text : List Char) : ∀ line ∈ lines text, '\n' ∉ line := by
  induction text using byLines with
  | last text hlast =>
    rw [lines_of_notMem hlast]
    intro line hline
    obtain rfl := List.mem_singleton.mp (List.mem_filter.mp hline).1
    exact hlast
  | ended line below hline ih =>
    rw [lines_append_newline hline, List.forall_mem_cons]
    exact ⟨notMem_withoutReturn hline, ih⟩

end Lines

namespace Stream
variable {source : String} {s : Stream}

/-- **How much is unread depends on what is left.** -/
theorem Sound.unread_eq (h : s.Sound) : s.unread = inked s.left := by
  have hline (text : List Char) (below : List Line) :
      inked (text ++ '\n' :: joined below) = inked text + inked (below.flatMap Line.text) := by
    rw [inked_append, ← inked_joined]
    simp [inked, isBlank_newline]
  rw [Stream.unread_eq]
  cases h with
  | @above lines => simp [Stream.left, inked_joined]
  | @inside c =>
    show 0 + inked c.rest + inked (c.below.flatMap Line.text) = inked c.left
    rw [Cursor.left, hline, Nat.zero_add]
  | @back c word rest line h =>
    show (ofCursor c).text.length + inked (c.skip (ofCursor c).text.length).rest +
      inked (c.below.flatMap Line.text) = inked c.left
    have hrest := congrArg inked c.rest_eq
    rw [inked_append, inked_firstWord, ← Cursor.length_ofCursor] at hrest
    rw [Cursor.left, hline, hrest]

/-- **At the start the whole text is left.** -/
theorem ofSource_left (h : ofSource source = .ok s) : s.Sound ∧ s.left = sourceText source := by
  obtain rfl := eq_of_ofSource h
  have hlines := numberedLines_text source
  refine ⟨.above fun l hl => ?_, ?_⟩
  · exact newline_notMem_lines source.toList _ (hlines ▸ List.mem_map_of_mem hl)
  · show joined (numberedLines source) = _
    rw [joined_eq, hlines, sourceText]

/-- **A source is refused for the words of its text.** -/
theorem exists_ofSource_iff : (∃ s, ofSource source = .ok s) ↔
    ∀ word ∈ words (sourceText source), word.length ≤ Ceiling.wordLength := by
  have hwords : (numberedLines source).flatMap (fun l => words l.text) =
      words (sourceText source) := by
    rw [← words_joined, joined_eq, numberedLines_text, sourceText]
  rw [← hwords]
  have hlong : overlongWord? (numberedLines source) = none ↔ _ := overlongWord?_eq_none
  rw [List.flatMap_map] at hlong
  rw [← hlong]
  unfold ofSource
  dsimp only
  cases overlongWord? (numberedLines source) <;> simp

end Stream
end DeviceSchema.Token
