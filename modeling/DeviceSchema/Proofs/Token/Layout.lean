import DeviceSchema.Token.Stream

/-! # Layouts of a source

A source is written in **pieces**: plain words, and texts in quotes, in which blanks may
stand.  A **layout** of some pieces is a text that has them in their order with blanks
between them (`Layout`); which blanks, and where lines end, is up to the writer.

Line ends fall between pieces, so the lines of a layout are layouts of consecutive runs
of its pieces (`Layout.spread`).  How many characters are not blank, and how long words
are, is the same in all layouts of the same pieces (`Spread.inked`, `Spread.words`).
-/
namespace DeviceSchema.Token
open Text

/-- A piece of a source: a word that begins neither a text in quotes nor a comment, or a
text in quotes that ends on the line on which it begins. -/
inductive Piece where
  | plain (word : List Char)
  | quoted (body : List Char)
deriving DecidableEq, Repr

namespace Piece

/-- The piece as it is written. -/
def spelling : Piece → List Char
  | plain word => word
  | quoted body => '"' :: body ++ ['"']

/-- What can be read again as this piece. -/
def WellFormed : Piece → Prop
  | plain word => word ≠ [] ∧ (∀ c ∈ word, isBlank c = false) ∧
      word.head? ≠ some '"' ∧ word.head? ≠ some '#'
  | quoted body => '"' ∉ body ∧ '\n' ∉ body

instance : DecidablePred WellFormed
  | plain word =>
    -- The characters of the word are gone through, not all characters that there are.
    haveI : Decidable (∀ c ∈ word, isBlank c = false) := List.decidableBAll _ word
    inferInstanceAs (Decidable (word ≠ [] ∧ (∀ c ∈ word, isBlank c = false) ∧
      word.head? ≠ some '"' ∧ word.head? ≠ some '#'))
  | quoted body => inferInstanceAs (Decidable ('"' ∉ body ∧ '\n' ∉ body))

end Piece

/-- A text begins with a blank unless it is empty. -/
def Parted (text : List Char) : Prop := ∀ c, text.head? = some c → isBlank c = true

/-- A text that consists of some pieces and of blanks, with at least one blank between two
pieces. -/
inductive Layout : List Piece → List Char → Prop
  | nil : Layout [] []
  | blank {c : Char} {ps : List Piece} {text : List Char} (hc : isBlank c = true)
      (h : Layout ps text) : Layout ps (c :: text)
  | piece {p : Piece} {ps : List Piece} {text : List Char} (hp : p.WellFormed)
      (hparted : Parted text) (h : Layout ps text) : Layout (p :: ps) (p.spelling ++ text)

/-- Lines that are layouts of consecutive runs of some pieces. -/
inductive Spread : List Piece → List (List Char) → Prop
  | nil : Spread [] []
  | cons {ps more : List Piece} {line : List Char} {below : List (List Char)}
      (h : Layout ps line) (hbelow : Spread more below) : Spread (ps ++ more) (line :: below)

section Characters
variable {p : Piece}

theorem isBlank_newline : isBlank '\n' = true := by decide

theorem isBlank_quote : isBlank '"' = false := by decide

theorem Piece.newline_notMem (h : p.WellFormed) : '\n' ∉ p.spelling := by
  cases p with
  | plain word =>
    intro hmem
    have hblank := h.2.1 '\n' hmem
    rw [isBlank_newline] at hblank
    cases hblank
  | quoted body => simpa [spelling] using h.2

/-- A piece begins with a character that shows and begins no comment. -/
theorem Piece.exists_spelling (h : p.WellFormed) :
    ∃ c rest, p.spelling = c :: rest ∧ isBlank c = false ∧ c ≠ '#' := by
  cases p with
  | plain word =>
    obtain ⟨c, rest, rfl⟩ := List.exists_cons_of_ne_nil h.1
    refine ⟨c, rest, rfl, h.2.1 c List.mem_cons_self, fun hc => h.2.2.2 ?_⟩
    rw [hc, List.head?_cons]
  | quoted body => exact ⟨'"', body ++ ['"'], rfl, isBlank_quote, by decide⟩

/-- A piece does not end with a blank. -/
theorem Piece.last_not_blank (h : p.WellFormed) {text : List Char} {c : Char}
    (hc : p.spelling = text ++ [c]) : isBlank c = false := by
  cases p with
  | plain word =>
    have hword : word = text ++ [c] := hc
    exact h.2.1 c (by rw [hword]; simp)
  | quoted body =>
    have hbody : ('"' :: body) ++ ['"'] = text ++ [c] := hc
    obtain ⟨-, hlast⟩ := List.append_inj' hbody rfl
    rw [← List.singleton_inj.mp hlast]
    exact isBlank_quote

end Characters

section Writing
variable {ps : List Piece} {text gap : List Char}

/-- Some pieces, each with the same gap after it. -/
def spaced (gap : List Char) (ps : List Piece) : List Char := ps.flatMap fun p => p.spelling ++ gap

theorem Layout.indent (hgap : ∀ c ∈ gap, isBlank c = true) (h : Layout ps text) :
    Layout ps (gap ++ text) := by
  induction gap with
  | nil => exact h
  | cons c gap ih =>
    rw [List.forall_mem_cons] at hgap
    exact .blank hgap.1 (ih hgap.2)

/-- **Pieces with blanks after each of them are a layout.** -/
theorem layout_spaced (hne : gap ≠ []) (hgap : ∀ c ∈ gap, isBlank c = true)
    (h : ∀ p ∈ ps, p.WellFormed) : Layout ps (spaced gap ps) := by
  induction ps with
  | nil => exact .nil
  | cons p rest ih =>
    rw [List.forall_mem_cons] at h
    rw [spaced, List.flatMap_cons, List.append_assoc]
    refine .piece h.1 (fun c hc => ?_) ((ih h.2).indent hgap)
    obtain ⟨d, more, rfl⟩ := List.exists_cons_of_ne_nil hne
    obtain rfl : d = c := Option.some.inj hc
    exact hgap d List.mem_cons_self

end Writing

section Lines
variable {ps : List Piece} {text before after : List Char}

/-- Induction on the lines of a text, the last of which has no line feed behind it. -/
theorem byLines {motive : List Char → Prop} (last : ∀ line, '\n' ∉ line → motive line)
    (ended : ∀ line below, '\n' ∉ line → motive below → motive (line ++ '\n' :: below))
    (text : List Char) : motive text := by
  by_cases hmem : '\n' ∈ text
  · obtain ⟨line, below, htext, hline⟩ := List.eq_append_cons_of_mem hmem
    have hlength : below.length < text.length := by
      rw [htext, List.length_append, List.length_cons]
      omega
    rw [htext]
    exact ended line below hline (byLines last ended below)
  · exact last text hmem
termination_by text.length

theorem lines_of_notMem (h : '\n' ∉ text) : lines text = [text].filter fun line => !line.isEmpty := by
  rw [lines, List.splitOn_eq_singleton h]
  rfl

theorem lines_append_newline (h : '\n' ∉ before) :
    lines (before ++ '\n' :: after) = withoutReturn before :: lines after := by
  have hne : after.splitOn '\n' ≠ [] := List.splitOn_ne_nil '\n' after
  rw [lines, lines, List.splitOn_append_cons_self, List.splitOn_eq_singleton h,
    List.singleton_append, List.dropLast_cons_of_ne_nil hne, List.map_cons,
    List.getLast?_cons_of_ne_nil hne, List.cons_append]

/-- What stands before the first line end begins with all that has none. -/
theorem exists_tail {front rest : List Char} (h : front ++ rest = before ++ '\n' :: after)
    (hfront : '\n' ∉ front) : ∃ tail, before = front ++ tail ∧ rest = tail ++ '\n' :: after := by
  rcases List.append_eq_append_iff.mp h with hlong | ⟨tail, hshort, hrest⟩
  · exact hlong
  · cases tail with
    | nil => exact ⟨[], by simpa using hshort.symm, hrest.symm⟩
    | cons c tail =>
      obtain ⟨rfl, -⟩ := List.cons.inj hrest
      exact absurd (by simp [hshort]) hfront

namespace Layout

theorem eq_nil (h : Layout ps text) (htext : text = []) : ps = [] := by
  cases h with
  | nil => rfl
  | blank => cases htext
  | piece hp =>
    obtain ⟨c, rest, hspelling, -⟩ := Piece.exists_spelling hp
    rw [hspelling] at htext
    cases htext

/-- A line end in a layout stands between two pieces. -/
theorem split_newline (h : Layout ps text) (htext : text = before ++ '\n' :: after) :
    ∃ ps₁ ps₂, ps = ps₁ ++ ps₂ ∧ Layout ps₁ before ∧ Layout ps₂ after := by
  induction h generalizing before with
  | nil => simp at htext
  | @blank c ps text hc h ih =>
    cases before with
    | nil =>
      obtain ⟨-, rfl⟩ := List.cons.inj htext
      exact ⟨[], ps, rfl, .nil, h⟩
    | cons d before =>
      obtain ⟨rfl, hrest⟩ := List.cons.inj htext
      obtain ⟨ps₁, ps₂, rfl, h₁, h₂⟩ := ih hrest
      exact ⟨ps₁, ps₂, rfl, .blank hc h₁, h₂⟩
  | @piece p ps text hp hparted h ih =>
    obtain ⟨tail, rfl, htail⟩ := exists_tail htext (Piece.newline_notMem hp)
    obtain ⟨ps₁, ps₂, rfl, h₁, h₂⟩ := ih htail
    refine ⟨p :: ps₁, ps₂, rfl, .piece hp (fun c hc => hparted c ?_) h₁, h₂⟩
    cases tail with
    | nil => cases hc
    | cons d tail => simpa [htail] using hc

/-- A blank at the end of a layout may be left out. -/
theorem dropBlank {c : Char} (h : Layout ps text) (htext : text = before ++ [c])
    (hc : isBlank c = true) : Layout ps before := by
  induction h generalizing before with
  | nil => simp at htext
  | @blank d ps text hd h ih =>
    cases before with
    | nil =>
      obtain ⟨-, rfl⟩ := List.cons.inj htext
      exact h
    | cons e before =>
      obtain ⟨rfl, hrest⟩ := List.cons.inj htext
      exact .blank hd (ih hrest)
  | @piece p ps text hp hparted h ih =>
    rcases List.eq_nil_or_concat text with rfl | ⟨init, d, rfl⟩
    · rw [List.append_nil] at htext
      rw [Piece.last_not_blank hp htext] at hc
      cases hc
    · rw [List.concat_eq_append, ← List.append_assoc] at htext
      obtain ⟨rfl, hlast⟩ := List.append_inj' htext rfl
      obtain rfl := List.singleton_inj.mp hlast
      refine .piece hp (fun e he => hparted e ?_) (ih List.concat_eq_append)
      cases init with
      | nil => cases he
      | cons f init => simpa using he

theorem withoutReturn (h : Layout ps text) : Layout ps (Text.withoutReturn text) := by
  unfold Text.withoutReturn
  split
  · rename_i hlast
    obtain ⟨before, rfl⟩ := List.getLast?_eq_some_iff.mp hlast
    rw [List.dropLast_concat]
    exact h.dropBlank rfl (by decide)
  · exact h

/-- **The lines of a layout are layouts of consecutive runs of its pieces.** -/
theorem spread {ps : List Piece} {text : List Char} (h : Layout ps text) :
    Spread ps (lines text) := by
  induction text using byLines generalizing ps with
  | last text hlast =>
    rw [lines_of_notMem hlast]
    cases text with
    | nil =>
      rw [h.eq_nil rfl]
      exact .nil
    | cons c text =>
      have hone := Spread.cons h .nil
      rwa [List.append_nil] at hone
  | ended line below hline ih =>
    obtain ⟨ps₁, ps₂, rfl, h₁, h₂⟩ := h.split_newline rfl
    rw [lines_append_newline hline]
    exact .cons h₁.withoutReturn (ih h₂)

end Layout
end Lines

section Words
variable {ps : List Piece} {text rest : List Char} {below : List (List Char)}

theorem Layout.wellFormed (h : Layout ps text) : ∀ p ∈ ps, p.WellFormed := by
  induction h with
  | nil => simp
  | blank hc h ih => exact ih
  | piece hp hparted h ih => exact List.forall_mem_cons.mpr ⟨hp, ih⟩

theorem Spread.wellFormed (h : Spread ps below) : ∀ p ∈ ps, p.WellFormed := by
  induction h with
  | nil => simp
  | cons h hbelow ih =>
    intro p hp
    exact (List.mem_append.mp hp).elim (h.wellFormed p) (ih p)

theorem words_append_blank {c : Char} (hc : isBlank c = true) (text rest : List Char) :
    words (text ++ c :: rest) = words text ++ words rest := by
  rw [words, words, words, List.splitOnP_append_cons text rest hc, List.filter_append]

theorem words_cons_blank {c : Char} (hc : isBlank c = true) (rest : List Char) :
    words (c :: rest) = words rest := words_append_blank hc [] rest

/-- No word goes on behind a text that is parted from it. -/
theorem words_append_parted (h : Parted rest) : words (text ++ rest) = words text ++ words rest := by
  cases rest with
  | nil => rw [List.append_nil, show words [] = [] from rfl, List.append_nil]
  | cons c rest =>
    have hc : isBlank c = true := h c rfl
    rw [words_append_blank hc, words_cons_blank hc]

theorem Layout.words (h : Layout ps text) :
    words text = ps.flatMap fun p => words p.spelling := by
  induction h with
  | nil => rfl
  | blank hc h ih => rw [words_cons_blank hc, ih]
  | piece hp hparted h ih => rw [words_append_parted hparted, ih, List.flatMap_cons]

/-- **All layouts of the same pieces have the same words.** -/
theorem Spread.words (h : Spread ps below) :
    below.flatMap words = ps.flatMap fun p => words p.spelling := by
  induction h with
  | nil => rfl
  | cons h hbelow ih => rw [List.flatMap_cons, h.words, ih, List.flatMap_append]

/-- The number of characters of some pieces that are not blank. -/
def ink (ps : List Piece) : Nat := Stream.inked (ps.flatMap Piece.spelling)

theorem inked_append (text more : List Char) :
    Stream.inked (text ++ more) = Stream.inked text + Stream.inked more := List.countP_append

theorem ink_cons (p : Piece) (ps : List Piece) :
    ink (p :: ps) = Stream.inked p.spelling + ink ps := by
  rw [ink, List.flatMap_cons, inked_append, ink]

theorem Layout.inked (h : Layout ps text) : Stream.inked text = ink ps := by
  induction h with
  | nil => rfl
  | blank hc h ih =>
    rw [Stream.inked, List.countP_cons_of_neg (by simp [hc])]
    exact ih
  | piece hp hparted h ih =>
    rw [inked_append, ink_cons, ih]

/-- **All layouts of the same pieces have the same number of characters that are not
blank.** -/
theorem Spread.inked (h : Spread ps below) : Stream.inked below.flatten = ink ps := by
  induction h with
  | nil => rfl
  | cons h hbelow ih =>
    rw [List.flatten_cons, inked_append, h.inked, ih, ink, ink, ink, List.flatMap_append,
      inked_append]

/-- Every piece has a character that is not blank. -/
theorem length_le_ink (h : ∀ p ∈ ps, p.WellFormed) : ps.length ≤ ink ps := by
  induction ps with
  | nil => exact Nat.le_refl 0
  | cons p rest ih =>
    rw [List.forall_mem_cons] at h
    obtain ⟨c, more, hspelling, hc, -⟩ := Piece.exists_spelling h.1
    have hone : 1 ≤ Stream.inked p.spelling := by
      rw [hspelling, Stream.inked, List.countP_cons_of_pos (by simp [hc])]
      omega
    have hrest := ih h.2
    rw [ink_cons, List.length_cons]
    omega

end Words
end DeviceSchema.Token
