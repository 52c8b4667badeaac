import DeviceSchema.Proofs.Token.Lines
import DeviceSchema.Proofs.Token.Reached

/-! # Tokens are the maximal runs of the source

A stream goes through numbered lines and counts columns.  Its source is a single text, and
there the tokens are easy to tell: they are the maximal **runs** of characters that are not
blank (`Run.IsIn`).  The line of a run is one more than the number of line feeds before it, and
its column one more than the number of characters since the last of them.

The runs of a text are listed block by block (`runsAfter`), where a block is a blank or a whole
word (`byBlocks`).  A line of the source has the runs of its text, as no run goes on over a line
end (`map_placed_lineTokens`, `map_placed_tokensOf`).  What a stream refuses, what it gives and
which line it is on are then read off the runs (`ofSource_runs`).
-/
namespace DeviceSchema.Token
open Text

/-- Some characters of a text and all that stand before them. -/
structure Run where
  before : List Char
  word : List Char

/-- Some characters, none of them blank. -/
def IsWord (word : List Char) : Prop := word ≠ [] ∧ ∀ c ∈ word, isBlank c = false

/-- The number of the line on which a text ends. -/
def lineAfter (before : List Char) : Nat := 1 + before.count '\n'

/-- The column behind the last character of a text. -/
def columnAfter (before : List Char) : Nat :=
  1 + (before.reverse.takeWhile (· ≠ '\n')).length

namespace Run

/-- A word of the text that is not part of a longer one. -/
def IsIn (r : Run) (text : List Char) : Prop :=
  ∃ after, text = r.before ++ (r.word ++ after) ∧ IsWord r.word ∧ Parted r.before.reverse ∧
    Parted after

def line (r : Run) : Nat := lineAfter r.before

def column (r : Run) : Nat := columnAfter r.before

/-- What a token of the run says. -/
def placed (r : Run) : List Char × Nat × Nat := (r.word, r.line, r.column)

end Run

/-- What the token says, its place in numbers. -/
def placed (t : Token) : List Char × Nat × Nat := (t.text.toList, t.line, t.column)

/-- The runs of `text` where `before` stands before it. -/
def runsAfter (before : List Char) : List Char → List Run
  | [] => []
  | c :: rest =>
    if isBlank c then runsAfter (before ++ [c]) rest
    else ⟨before, firstWord (c :: rest)⟩ ::
      runsAfter (before ++ firstWord (c :: rest)) (rest.dropWhile fun d => !isBlank d)
termination_by text => text.length
decreasing_by
  · exact Nat.lt_succ_self _
  · exact Nat.lt_succ_of_le (List.dropWhile_sublist _).length_le

/-! ## Blocks of a text -/

section Blocks
variable {word word' rest rest' : List Char} {c : Char}

theorem firstWord_isWord (h : IsWord word) : firstWord word = word :=
  List.takeWhile_eq_self_iff.mpr fun c hc => by simp [h.2 c hc]

theorem IsWord.newline_notMem (h : IsWord word) : '\n' ∉ word := fun hmem => by
  have hblank := h.2 '\n' hmem
  rw [isBlank_newline] at hblank
  cases hblank

/-- A word is not parted from what stands before it. -/
theorem IsWord.not_parted (h : IsWord word) : ¬Parted (word ++ rest) := by
  obtain ⟨c, more, rfl⟩ := List.exists_cons_of_ne_nil h.1
  intro hparted
  have hblank := hparted c rfl
  rw [h.2 c List.mem_cons_self] at hblank
  cases hblank

/-- What a text begins with up to the first blank is told by the text. -/
theorem IsWord.eq_of_append (h : IsWord word) (h' : IsWord word') (hrest : Parted rest)
    (hrest' : Parted rest') (heq : word ++ rest = word' ++ rest') : word = word' ∧ rest = rest' := by
  have hword : word = word' := by
    calc word = firstWord (word ++ rest) := by
          rw [firstWord_append_parted hrest, firstWord_isWord h]
      _ = firstWord (word' ++ rest') := by rw [heq]
      _ = word' := by rw [firstWord_append_parted hrest', firstWord_isWord h']
  subst hword
  exact ⟨rfl, List.append_cancel_left heq⟩

/-- Every text is built from blanks and whole words. -/
@[elab_as_elim]
theorem byBlocks {motive : List Char → Prop} (nil : motive [])
    (blank : ∀ c rest, isBlank c = true → motive rest → motive (c :: rest))
    (word : ∀ word rest, IsWord word → Parted rest → motive rest → motive (word ++ rest))
    (text : List Char) : motive text := by
  cases text with
  | nil => exact nil
  | cons c rest =>
    by_cases hc : isBlank c = true
    · exact blank c rest hc (byBlocks nil blank word rest)
    · have hsplit : c :: rest = firstWord (c :: rest) ++ rest.dropWhile fun d => !isBlank d := by
        rw [firstWord, List.takeWhile_cons_of_pos (by simpa using hc), List.cons_append,
          List.takeWhile_append_dropWhile]
      rw [hsplit]
      refine word _ _ ⟨?_, fun d hd => ?_⟩ (fun d hd => ?_) (byBlocks nil blank word _)
      · rw [firstWord, List.takeWhile_cons_of_pos (by simpa using hc)]
        exact List.cons_ne_nil _ _
      · simpa using List.mem_takeWhile_imp hd
      · have hhead := List.head?_dropWhile_not (fun d => !isBlank d) rest
        rw [hd] at hhead
        simpa using hhead
termination_by text.length
decreasing_by
  · exact Nat.lt_succ_self _
  · exact Nat.lt_succ_of_le (List.dropWhile_sublist _).length_le

theorem runsAfter_nil (before : List Char) : runsAfter before [] = [] := by rw [runsAfter]

theorem runsAfter_blank (hc : isBlank c = true) (before rest : List Char) :
    runsAfter before (c :: rest) = runsAfter (before ++ [c]) rest := by
  rw [runsAfter, if_pos hc]

theorem runsAfter_word (h : IsWord word) (hparted : Parted rest) (before : List Char) :
    runsAfter before (word ++ rest) = ⟨before, word⟩ :: runsAfter (before ++ word) rest := by
  have hfirst : firstWord (word ++ rest) = word := by
    rw [firstWord_append_parted hparted, firstWord_isWord h]
  have hrest : (word ++ rest).dropWhile (fun d => !isBlank d) = rest := by
    have hsplit : firstWord (word ++ rest) ++ (word ++ rest).dropWhile (fun d => !isBlank d) =
        word ++ rest := List.takeWhile_append_dropWhile
    rw [hfirst] at hsplit
    exact List.append_cancel_left hsplit
  obtain ⟨c, more, rfl⟩ := List.exists_cons_of_ne_nil h.1
  have hc : isBlank c = false := h.2 c List.mem_cons_self
  rw [List.cons_append] at hfirst hrest ⊢
  rw [List.dropWhile_cons_of_pos (by simp [hc])] at hrest
  rw [runsAfter, if_neg (by simp [hc]), hfirst, hrest]

/-- Nothing of what is parted from a text belongs to a run of it. -/
theorem runsAfter_append (hparted : Parted rest) (before text : List Char) :
    runsAfter before (text ++ rest) =
      runsAfter before text ++ runsAfter (before ++ text) rest := by
  induction text using byBlocks generalizing before with
  | nil => rw [runsAfter_nil, List.append_nil, List.nil_append, List.nil_append]
  | blank c more hc ih =>
    rw [List.cons_append, runsAfter_blank hc, runsAfter_blank hc, ih, List.append_assoc,
      List.singleton_append]
  | word word more hword hmore ih =>
    have hall : Parted (more ++ rest) := by
      cases more with
      | nil => exact hparted
      | cons c more => exact hmore
    rw [List.append_assoc, runsAfter_word hword hall, runsAfter_word hword hmore, ih,
      List.cons_append, List.append_assoc]

end Blocks

/-! ## The runs are listed -/

section Listing
variable {before front text : List Char} {r : Run}

theorem parted_reverse_concat {c : Char} :
    Parted (before ++ [c]).reverse ↔ isBlank c = true := by
  rw [List.reverse_append, List.reverse_singleton, List.singleton_append]
  exact ⟨fun h => h c rfl, fun h d hd => Option.some.inj hd ▸ h⟩

/-- What stands before the runs of a text is what stood before the text and some of it. -/
theorem exists_front (before text : List Char) :
    ∀ r ∈ runsAfter before text, ∃ front, r.before = before ++ front := by
  induction text using byBlocks generalizing before with
  | nil => simp [runsAfter_nil]
  | blank c rest hc ih =>
    intro r hr
    rw [runsAfter_blank hc] at hr
    obtain ⟨front, hfront⟩ := ih _ r hr
    exact ⟨c :: front, by rw [hfront, List.append_assoc, List.singleton_append]⟩
  | word word rest hword hparted ih =>
    rw [runsAfter_word hword hparted, List.forall_mem_cons]
    refine ⟨⟨[], (List.append_nil _).symm⟩, fun r hr => ?_⟩
    obtain ⟨front, hfront⟩ := ih _ r hr
    exact ⟨word ++ front, by rw [hfront, List.append_assoc]⟩

/-- **The runs are listed in the order in which they begin.** -/
theorem pairwise_runsAfter (before text : List Char) :
    (runsAfter before text).Pairwise fun r r' => r.before.length < r'.before.length := by
  induction text using byBlocks generalizing before with
  | nil => rw [runsAfter_nil]; exact .nil
  | blank c rest hc ih => rw [runsAfter_blank hc]; exact ih _
  | word word rest hword hparted ih =>
    rw [runsAfter_word hword hparted, List.pairwise_cons]
    refine ⟨fun r hr => ?_, ih _⟩
    obtain ⟨front, hfront⟩ := exists_front _ _ r hr
    have hpos := List.length_pos_iff.mpr hword.1
    rw [hfront, List.length_append, List.length_append]
    dsimp only
    omega

/-- A listed run is a run of the whole text, provided that the text is not cut off within a
word. -/
theorem isIn_of_mem (hseam : Parted before.reverse ∨ Parted text) (hr : r ∈ runsAfter before text) :
    r.IsIn (before ++ text) := by
  induction text using byBlocks generalizing before with
  | nil => simp [runsAfter_nil] at hr
  | blank c rest hc ih =>
    rw [runsAfter_blank hc] at hr
    have hin := ih (.inl (parted_reverse_concat.mpr hc)) hr
    rwa [List.append_assoc] at hin
  | word word rest hword hparted ih =>
    rw [runsAfter_word hword hparted, List.mem_cons] at hr
    rcases hr with rfl | hr
    · exact ⟨rest, rfl, hword, hseam.resolve_right hword.not_parted, hparted⟩
    · have hin := ih (.inr hparted) hr
      rwa [List.append_assoc] at hin

/-- A run of the whole text that begins in the second part is listed for that part. -/
theorem mem_runsAfter (hr : r.IsIn (before ++ text)) (hfront : r.before = before ++ front) :
    r ∈ runsAfter before text := by
  obtain ⟨after, hsplit, hrun, hstart, hend⟩ := hr
  rw [hfront, List.append_assoc] at hsplit
  replace hsplit := List.append_cancel_left hsplit
  induction text using byBlocks generalizing before front with
  | nil =>
    obtain ⟨-, hempty⟩ := List.nil_eq_append_iff.mp hsplit
    exact absurd (List.append_eq_nil_iff.mp hempty).1 hrun.1
  | blank c rest hc ih =>
    rw [runsAfter_blank hc]
    cases front with
    | nil =>
      -- The run would begin with the blank.
      have hparted : Parted (r.word ++ after) := by
        rw [← List.nil_append (r.word ++ after), ← hsplit]
        exact fun d hd => Option.some.inj hd ▸ hc
      exact absurd hparted hrun.not_parted
    | cons d front =>
      obtain ⟨rfl, hrest⟩ := List.cons.inj hsplit
      have hbefore : r.before = before ++ [c] ++ front := by
        rw [hfront, List.append_assoc, List.singleton_append]
      exact ih hbefore hrest
  | word word rest hword hparted ih =>
    rw [runsAfter_word hword hparted, List.mem_cons]
    rcases List.eq_nil_or_concat front with rfl | ⟨init, d, rfl⟩
    · refine .inl ?_
      obtain ⟨hsame, -⟩ := hword.eq_of_append hrun hparted hend hsplit
      rw [List.append_nil] at hfront
      cases r
      cases hfront
      cases hsame
      rfl
    · -- The blank before the run is none of the word, so the run is behind the word.
      rw [List.concat_eq_append] at hfront hsplit
      have hd : isBlank d = true := by
        rw [hfront, ← List.append_assoc] at hstart
        exact parted_reverse_concat.mp hstart
      rcases List.append_eq_append_iff.mp hsplit with ⟨more, hmore, hrest⟩ | ⟨more, hmore, -⟩
      · have hbefore : r.before = before ++ word ++ more := by
          rw [hfront, hmore, List.append_assoc]
        exact .inr (ih hbefore hrest)
      · have hmem : d ∈ word := by rw [hmore]; simp
        rw [hword.2 d hmem] at hd
        cases hd

/-- **Exactly the runs of a text are listed.** -/
theorem mem_runsAfter_nil {text : List Char} : r ∈ runsAfter [] text ↔ r.IsIn text :=
  ⟨isIn_of_mem (.inl nofun), fun h => mem_runsAfter h rfl⟩

end Listing

/-! ## Lines -/

section Places
variable {before line : List Char}

theorem lineAfter_append (h : '\n' ∉ line) : lineAfter (before ++ line) = lineAfter before := by
  rw [lineAfter, List.count_append, List.count_eq_zero.mpr h]
  rfl

theorem columnAfter_append (h : '\n' ∉ line) :
    columnAfter (before ++ line) = columnAfter before + line.length := by
  have hline : ∀ c ∈ line.reverse, decide (c ≠ '\n') = true := fun c hc =>
    decide_eq_true fun he => h (he ▸ List.mem_reverse.mp hc)
  rw [columnAfter, List.reverse_append, List.takeWhile_append_of_pos hline, List.length_append,
    List.length_reverse, columnAfter]
  omega

theorem lineAfter_newline (text : List Char) :
    lineAfter (text ++ ['\n']) = lineAfter text + 1 := by
  rw [lineAfter, List.count_append, lineAfter]
  rfl

theorem columnAfter_newline (text : List Char) : columnAfter (text ++ ['\n']) = 1 := by
  rw [columnAfter, List.reverse_append]
  rfl

end Places

namespace Cursor

/-- A blank at the cursor only moves the word behind it. -/
theorem lineTokens_blank {line column : Nat} {d : Char} {rest : List Char} {below : List Line}
    (hd : isBlank d = true) :
    (⟨line, column, d :: rest, below⟩ : Cursor).lineTokens =
      (⟨line, column + 1, rest, below⟩ : Cursor).lineTokens := by
  have hword : (⟨line, column, d :: rest, below⟩ : Cursor).word? =
      (⟨line, column + 1, rest, below⟩ : Cursor).word? := by
    simp only [word?, skipBlanks, List.dropWhile_cons_of_pos hd, List.takeWhile_cons_of_pos hd,
      List.length_cons, Nat.add_assoc, Nat.add_comm 1]
  cases hw : (⟨line, column + 1, rest, below⟩ : Cursor).word? with
  | none => rw [lineTokens_eq_nil hw, lineTokens_eq_nil (hword.trans hw)]
  | some w => rw [lineTokens_eq hw, lineTokens_eq (hword.trans hw)]

theorem lineTokens_word {line column : Nat} {word rest : List Char} {below : List Line}
    (hword : IsWord word) (hparted : Parted rest) :
    (⟨line, column, word ++ rest, below⟩ : Cursor).lineTokens =
      ⟨String.ofList word, line, column, word ++ rest, below⟩ ::
        (⟨line, column + word.length, rest, below⟩ : Cursor).lineTokens := by
  have hon : (⟨line, column, word ++ rest, below⟩ : Cursor).OnWord := by
    obtain ⟨c, more, rfl⟩ := List.exists_cons_of_ne_nil hword.1
    exact ⟨c, more ++ rest, rfl, hword.2 c List.mem_cons_self⟩
  have htext : ofCursor ⟨line, column, word ++ rest, below⟩ =
      ⟨String.ofList word, line, column, word ++ rest, below⟩ := by
    rw [ofCursor]
    dsimp only
    rw [firstWord_append_parted hparted, firstWord_isWord hword]
  rw [hon.lineTokens, htext, skip]
  dsimp only
  rw [String.length_ofList, List.drop_left]

/-- **The tokens of a line are the runs of its text.** -/
theorem map_placed_lineTokens (before : List Char) (below : List Line) {text : List Char}
    (h : '\n' ∉ text) :
    (⟨lineAfter before, columnAfter before, text, below⟩ : Cursor).lineTokens.map Token.placed =
      (runsAfter before text).map Run.placed := by
  induction text using byBlocks generalizing before with
  | nil => rw [lineTokens_eq_nil rfl, runsAfter_nil]; rfl
  | blank c rest hc ih =>
    rw [List.mem_cons, not_or] at h
    obtain ⟨hne, hrest⟩ := h
    have hone : '\n' ∉ [c] := fun hmem => hne (List.mem_singleton.mp hmem)
    have hrec := ih (before ++ [c]) hrest
    rw [lineAfter_append hone, columnAfter_append hone] at hrec
    rw [lineTokens_blank hc, runsAfter_blank hc]
    exact hrec
  | word word rest hword hparted ih =>
    have hrec := ih (before ++ word) fun hmem => h (List.mem_append_right _ hmem)
    rw [lineAfter_append hword.newline_notMem, columnAfter_append hword.newline_notMem] at hrec
    have hplaced : Token.placed
        ⟨String.ofList word, lineAfter before, columnAfter before, word ++ rest, below⟩ =
          Run.placed ⟨before, word⟩ := by
      rw [Token.placed, String.toList_ofList]
      rfl
    rw [lineTokens_word hword hparted, runsAfter_word hword hparted, List.map_cons, List.map_cons,
      hrec, hplaced]

end Cursor

/-- A carriage return belongs to no run. -/
theorem runsAfter_withoutReturn (before line : List Char) :
    runsAfter before (withoutReturn line) = runsAfter before line := by
  unfold withoutReturn
  split
  · rename_i hlast
    obtain ⟨init, rfl⟩ := List.getLast?_eq_some_iff.mp hlast
    have hreturn : isBlank '\r' = true := by decide
    have hparted : Parted ['\r'] := fun c hc => Option.some.inj hc ▸ hreturn
    rw [List.dropLast_concat, runsAfter_append hparted, runsAfter_blank hreturn, runsAfter_nil,
      List.append_nil]
  · rfl

theorem notMem_withoutReturn {line : List Char} (h : '\n' ∉ line) : '\n' ∉ withoutReturn line := by
  unfold withoutReturn
  split
  · exact fun hmem => h (List.dropLast_subset _ hmem)
  · exact h

/-- **The tokens of all lines are the runs of the whole text.** -/
theorem map_placed_tokensOf (text : List Char) {before : List Char} {index : Nat}
    (hline : lineAfter before = index + 1) (hcolumn : columnAfter before = 1) :
    (tokensOf (Stream.numbered index (lines text))).map Token.placed =
      (runsAfter before text).map Run.placed := by
  induction text using byLines generalizing before index with
  | last text hlast =>
    rw [lines_of_notMem hlast]
    cases text with
    | nil => rw [runsAfter_nil]; rfl
    | cons c rest =>
      have hfirst := Cursor.map_placed_lineTokens before [] hlast
      rw [hline, hcolumn] at hfirst
      rw [← hfirst]
      exact congrArg (List.map Token.placed) (List.append_nil _)
  | ended line below hnew ih =>
    have hnext : lineAfter (before ++ line ++ ['\n']) = index + 1 + 1 := by
      rw [lineAfter_newline, lineAfter_append hnew, hline]
    have hbelow := ih hnext (columnAfter_newline _)
    have hfirst := Cursor.map_placed_lineTokens before
      (Stream.numbered (index + 1) (lines below)) (notMem_withoutReturn hnew)
    have hparted : Parted ('\n' :: below) := fun c hc => Option.some.inj hc ▸ isBlank_newline
    rw [hline, hcolumn, runsAfter_withoutReturn] at hfirst
    rw [lines_append_newline hnew, Stream.numbered_cons, tokensOf, List.map_append, hbelow,
      runsAfter_append hparted, runsAfter_blank isBlank_newline, List.map_append]
    exact congrArg (· ++ _) hfirst

/-! ## Streams -/

section Overlong

theorem line_of_mem_lineTokens (c : Cursor) : ∀ t ∈ c.lineTokens, t.line = c.line := by
  induction c using Cursor.lineTokens.induct with
  | case1 c hw => simp [Cursor.lineTokens_eq_nil hw]
  | case2 c w hw ih =>
    obtain ⟨hword, hline, -⟩ := Cursor.word?_eq_some hw
    rw [Cursor.lineTokens_eq hw, hword.lineTokens, List.forall_mem_cons, ← hline]
    exact ⟨rfl, ih⟩

theorem words_of_isWord {word : List Char} (h : IsWord word) : words word = [word] := by
  have hsplit : word.splitOnP isBlank = [word] := List.splitOnP_eq_singleton fun c hc => by
    simp [h.2 c hc]
  have hne : word.isEmpty = false := by simpa using h.1
  rw [words, hsplit]
  simp [hne]

/-- The words of a line are the texts of its tokens. -/
theorem words_eq_map_lineTokens {text : List Char} {line column : Nat} {below : List Line} :
    words text =
      (⟨line, column, text, below⟩ : Cursor).lineTokens.map fun t => t.text.toList := by
  induction text using byBlocks generalizing column with
  | nil => rw [Cursor.lineTokens_eq_nil rfl]; rfl
  | blank c rest hc ih => rw [words_cons_blank hc, Cursor.lineTokens_blank hc, ih]
  | word word rest hword hparted ih =>
    rw [words_append_parted hparted, words_of_isWord hword, Cursor.lineTokens_word hword hparted,
      List.map_cons, ← ih, String.toList_ofList, List.singleton_append]

/-- A line is refused for the first of its tokens that is too long. -/
theorem overlongWord?_eq (lines : List Line) : Stream.overlongWord? lines =
    ((tokensOf lines).find? fun t => Ceiling.wordLength < t.text.toList.length).map fun t =>
      (t.line, t.text.toList.length) := by
  induction lines with
  | nil => rfl
  | cons next below ih =>
    have hwords : words next.text = (Cursor.atLine next below).lineTokens.map fun t =>
        t.text.toList := words_eq_map_lineTokens
    have hline := line_of_mem_lineTokens (Cursor.atLine next below)
    rw [Stream.overlongWord?, List.findSome?_cons, ← Stream.overlongWord?, ih, tokensOf,
      List.find?_append, hwords, List.map_map, List.find?_map, Option.map_map]
    cases hfound : (Cursor.atLine next below).lineTokens.find? fun t =>
        Ceiling.wordLength < t.text.toList.length with
    | none => simp [Function.comp_def, hfound]
    | some t =>
      have hnumber : t.line = next.number := hline t (List.mem_of_find?_eq_some hfound)
      simp [Function.comp_def, hfound, hnumber]

end Overlong

namespace Stream

/-- **The stream is on the line of the token that was read last.** -/
theorem line_take {s : Stream} (h : s.Obeys .exact) {n : Nat} {t : Token}
    (ht : (s.take (n + 1)).1[n]? = some t) : (s.take (n + 1)).2.line = t.line := by
  induction n generalizing s with
  | zero =>
    obtain ⟨-, hnear⟩ := h.next
    rw [take] at ht ⊢
    cases hnext : s.next with
    | mk found s' =>
      rw [hnext] at ht hnear
      cases found with
      | none => cases ht
      | some u =>
        obtain rfl : u = t := Option.some.inj ht
        exact (hnear u rfl).symm
  | succ n ih =>
    have hobeys := h.next.1
    rw [take] at ht ⊢
    cases hnext : s.next with
    | mk found s' =>
      rw [hnext] at ht hobeys
      cases found with
      | none => cases ht
      | some u => exact ih hobeys ht

/-- **A source is refused for the first run that is too long; without one, its tokens are its
runs in their order, and reading a token moves to its line.** -/
theorem ofSource_runs (source : String) : ∃ runs : List Run,
    (∀ r, r ∈ runs ↔ r.IsIn source.toList) ∧
    runs.Pairwise (fun r r' => r.before.length < r'.before.length) ∧
    match runs.find? (fun r => Ceiling.wordLength < r.word.length), ofSource source with
    | some r, .error fault => fault = .tokenTooLong r.line r.word.length Ceiling.wordLength
    | none, .ok s =>
      s.drain.1.map Token.placed = runs.map Run.placed ∧
      (∀ n, (s.take n).1 = s.drain.1.take n) ∧
      ∀ n t, s.drain.1[n]? = some t → (s.take (n + 1)).2.line = t.line
    | _, _ => False := by
  refine ⟨runsAfter [] source.toList, fun r => mem_runsAfter_nil, pairwise_runsAfter _ _, ?_⟩
  have hplaced : (tokensOf (numberedLines source)).map Token.placed =
      (runsAfter [] source.toList).map Run.placed := by
    rw [numberedLines_eq]
    exact map_placed_tokensOf _ rfl rfl
  have hlong : overlongWord? (numberedLines source) =
      ((runsAfter [] source.toList).find? fun r => Ceiling.wordLength < r.word.length).map fun r =>
        (r.line, r.word.length) := by
    calc overlongWord? (numberedLines source)
        = (((tokensOf (numberedLines source)).map Token.placed).find? fun p =>
            Ceiling.wordLength < p.1.length).map fun p => (p.2.1, p.1.length) := by
          rw [overlongWord?_eq, List.find?_map, Option.map_map]
          rfl
      _ = _ := by
          rw [hplaced, List.find?_map, Option.map_map]
          rfl
  cases hfound : (runsAfter [] source.toList).find? fun r => Ceiling.wordLength < r.word.length with
  | some r =>
    rw [hfound] at hlong
    rw [ofSource, hlong]
    rfl
  | none =>
    rw [hfound] at hlong
    cases hs : ofSource source with
    | error fault =>
      rw [ofSource, hlong] at hs
      cases hs
    | ok s =>
      have hreads := reads_ofSource hs
      have htokens : s.tokens = tokensOf (numberedLines source) := by
        rw [eq_of_ofSource hs]
        rfl
      have hdrain : s.drain.1 = s.tokens := hreads.drain
      refine ⟨by rw [hdrain, htokens, hplaced], fun n => ?_, fun n t ht => ?_⟩
      · rw [hreads.take, hdrain]
      · refine line_take (exact_ofSource hs) ?_
        rw [hreads.take, List.getElem?_take_of_lt (Nat.lt_succ_self n), ← hdrain]
        exact ht

/-- Columns count characters, and a carriage return at the end of a line is in no token. -/
example : (ofSource "a\r\n é b").toOption.map (fun s => s.drain.1.map Token.placed) =
    some [(['a'], 1, 1), (['é'], 2, 2), (['b'], 2, 4)] := by
  decide +kernel

end Stream
end DeviceSchema.Token
