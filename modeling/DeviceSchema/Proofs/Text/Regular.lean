import Mathlib.Data.List.Basic
import DeviceSchema.Text.Regular

/-! # The test of a regular expression

A text is followed character by character with the expressions that may describe what is left
of it.  One step is right because the partial derivatives by a character describe exactly what
may follow that character (`matches_cons_iff`).  So after the last character it only remains to
see whether one of the expressions describes the empty text, and the test accepts exactly the
texts that the expression describes (`accepts_iff`).

Further sections say what the expressions describe that are built from others: characters,
literals, options and repetitions of single characters.  None of them describes a text with a
character that it does not mention.
-/
namespace DeviceSchema.Text.Regular

variable {r s : Regular} {c : Char} {text : List Char}

section Shapes

theorem matches_empty_iff : Matches empty text ↔ text = [] := by
  constructor
  · intro h
    cases h
    rfl
  · rintro rfl
    exact .empty

theorem matches_oneOf_iff {ranges : List (Char × Char)} :
    Matches (oneOf ranges) text ↔ ∃ d, inRanges ranges d = true ∧ text = [d] := by
  constructor
  · intro h
    cases h with
    | oneOf h => exact ⟨_, h, rfl⟩
  · rintro ⟨d, h, rfl⟩
    exact .oneOf h

theorem matches_seq_iff :
    Matches (seq r s) text ↔ ∃ xs ys, text = xs ++ ys ∧ Matches r xs ∧ Matches s ys := by
  constructor
  · intro h
    cases h with
    | seq hr hs => exact ⟨_, _, rfl, hr, hs⟩
  · rintro ⟨xs, ys, rfl, hr, hs⟩
    exact .seq hr hs

theorem matches_alt_iff : Matches (alt r s) text ↔ Matches r text ∨ Matches s text := by
  constructor
  · intro h
    cases h with
    | left h => exact .inl h
    | right h => exact .inr h
  · rintro (h | h)
    · exact .left h
    · exact .right h

/-- A text with a first character begins in one of two parts. -/
theorem matches_seq_cons_iff : Matches (seq r s) (c :: text) ↔
    (∃ xs ys, text = xs ++ ys ∧ Matches r (c :: xs) ∧ Matches s ys) ∨
      Matches r [] ∧ Matches s (c :: text) := by
  rw [matches_seq_iff]
  constructor
  · rintro ⟨xs, ys, hsplit, hr, hs⟩
    rcases List.cons_eq_append_iff.mp hsplit with ⟨rfl, rfl⟩ | ⟨rest, rfl, rfl⟩
    · exact .inr ⟨hr, hs⟩
    · exact .inl ⟨rest, ys, rfl, hr, hs⟩
  · rintro (⟨xs, ys, rfl, hr, hs⟩ | ⟨hr, hs⟩)
    · exact ⟨c :: xs, ys, rfl, hr, hs⟩
    · exact ⟨[], c :: text, rfl, hr, hs⟩

/-- The first character of repetitions is that of one of them. -/
theorem matches_star_cons_iff : Matches (star r) (c :: text) ↔
    ∃ xs ys, text = xs ++ ys ∧ Matches r (c :: xs) ∧ Matches (star r) ys := by
  constructor
  · intro h
    generalize hbody : star r = body at h
    generalize hwhole : c :: text = whole at h
    induction h with
    | empty | oneOf | seq | left | right => cases hbody
    | stop => cases hwhole
    | again hr hs _ ih =>
      cases hbody
      rcases List.cons_eq_append_iff.mp hwhole with ⟨rfl, rfl⟩ | ⟨rest, rfl, rfl⟩
      -- A repetition that describes nothing can be left out.
      · exact ih rfl rfl
      · exact ⟨rest, _, rfl, hr, hs⟩
  · rintro ⟨xs, ys, rfl, hr, hs⟩
    exact .again hr hs

end Shapes

section Derivatives

theorem nullable_iff : r.nullable = true ↔ Matches r [] := by
  induction r with
  | empty => simp [nullable, matches_empty_iff]
  | oneOf ranges => simp [nullable, matches_oneOf_iff]
  | seq r s ihr ihs =>
    rw [nullable, Bool.and_eq_true, ihr, ihs, matches_seq_iff]
    constructor
    · rintro ⟨hr, hs⟩
      exact ⟨[], [], rfl, hr, hs⟩
    · rintro ⟨xs, ys, hsplit, hr, hs⟩
      obtain ⟨rfl, rfl⟩ := List.append_eq_nil_iff.mp hsplit.symm
      exact ⟨hr, hs⟩
  | alt r s ihr ihs => rw [nullable, Bool.or_eq_true, ihr, ihs, matches_alt_iff]
  | star r _ => exact iff_of_true rfl .stop

theorem matches_andThen_iff : Matches (r.andThen s) text ↔ Matches (seq r s) text := by
  unfold andThen
  split
  · rw [matches_seq_iff]
    constructor
    · intro h
      exact ⟨[], text, rfl, .empty, h⟩
    · rintro ⟨xs, ys, rfl, hempty, h⟩
      rw [matches_empty_iff.mp hempty]
      exact h
  · rfl

/-- Deriving the first of two expressions. -/
theorem exists_andThen_iff {ps : List Regular} :
    (∃ p ∈ ps.map (·.andThen s), Matches p text) ↔
      ∃ xs ys, text = xs ++ ys ∧ (∃ p ∈ ps, Matches p xs) ∧ Matches s ys := by
  simp only [List.mem_map, exists_exists_and_eq_and, matches_andThen_iff, matches_seq_iff]
  constructor
  · rintro ⟨p, hp, xs, ys, hsplit, hxs, hys⟩
    exact ⟨xs, ys, hsplit, ⟨p, hp, hxs⟩, hys⟩
  · rintro ⟨xs, ys, hsplit, ⟨p, hp, hxs⟩, hys⟩
    exact ⟨p, hp, xs, ys, hsplit, hxs, hys⟩

/-- **The partial derivatives describe what may follow a character.** -/
theorem matches_cons_iff : Matches r (c :: text) ↔ ∃ p ∈ r.partials c, Matches p text := by
  induction r generalizing text with
  | empty => simp [partials, matches_empty_iff]
  | oneOf ranges =>
    rw [partials, matches_oneOf_iff]
    split <;> simp_all [matches_empty_iff]
  | seq r s ihr ihs =>
    rw [partials, matches_seq_cons_iff, ← nullable_iff]
    simp only [List.mem_append, or_and_right, exists_or, exists_andThen_iff, ihr]
    refine or_congr_right ?_
    split <;> simp_all
  | alt r s ihr ihs =>
    rw [partials, matches_alt_iff, ihr, ihs]
    simp only [List.mem_append, or_and_right, exists_or]
  | star r ih =>
    rw [partials, matches_star_cons_iff, exists_andThen_iff]
    simp only [ih]

end Derivatives

section Following

theorem mem_advance {states : List Regular} {p : Regular} :
    p ∈ advance states c ↔ ∃ r ∈ states, p ∈ r.partials c := by
  rw [advance, List.mem_eraseDups, List.mem_flatMap]

theorem any_nullable_foldl {states : List Regular} :
    (text.foldl advance states).any nullable = true ↔ ∃ r ∈ states, Matches r text := by
  induction text generalizing states with
  | nil => simp only [List.foldl_nil, List.any_eq_true, nullable_iff]
  | cons c rest ih =>
    rw [List.foldl_cons, ih]
    simp only [mem_advance, matches_cons_iff]
    constructor
    · rintro ⟨p, ⟨r, hr, hp⟩, h⟩
      exact ⟨r, hr, p, hp, h⟩
    · rintro ⟨r, hr, p, hp, h⟩
      exact ⟨p, ⟨r, hr, hp⟩, h⟩

/-- **The test accepts exactly the texts that the expression describes.** -/
theorem accepts_iff : r.accepts text = true ↔ Matches r text := by
  rw [accepts, any_nullable_foldl]
  simp only [List.mem_singleton, exists_eq_left]

end Following

section Ranges

theorem inRanges_cons_iff {low high : Char} {ranges : List (Char × Char)} :
    inRanges ((low, high) :: ranges) c = true ↔
      low ≤ c ∧ c ≤ high ∨ inRanges ranges c = true := by
  rw [inRanges, List.any_cons, Bool.or_eq_true, Bool.and_eq_true, decide_eq_true_eq,
    decide_eq_true_eq]
  rfl

theorem inRanges_nil : inRanges [] c = false := rfl

theorem between_self_iff {d : Char} : c ≤ d ∧ d ≤ c ↔ d = c :=
  ⟨fun h => Char.le_antisymm h.2 h.1, fun h => h ▸ ⟨Char.le_refl d, Char.le_refl d⟩⟩

end Ranges

section Building

theorem matches_char_iff : Matches (char c) text ↔ text = [c] := by
  simp [char, matches_oneOf_iff, inRanges_cons_iff, inRanges_nil, between_self_iff]

theorem matches_optional_iff : Matches (optional r) text ↔ Matches r text ∨ text = [] := by
  rw [optional, matches_alt_iff, matches_empty_iff]

/-- A separator stands between what two expressions describe. -/
theorem matches_seq_char_iff : Matches (seq r (seq (char c) s)) text ↔
    ∃ xs ys, text = xs ++ c :: ys ∧ Matches r xs ∧ Matches s ys := by
  simp only [matches_seq_iff, matches_char_iff]
  constructor
  · rintro ⟨xs, _, rfl, hr, _, ys, rfl, rfl, hs⟩
    exact ⟨xs, ys, rfl, hr, hs⟩
  · rintro ⟨xs, ys, rfl, hr, hs⟩
    exact ⟨xs, c :: ys, rfl, hr, [c], ys, rfl, rfl, hs⟩

theorem matches_sequence_char_iff {chars : List Char} :
    Matches (sequence (chars.map char)) text ↔ text = chars := by
  induction chars generalizing text with
  | nil => exact matches_empty_iff
  | cons c rest ih =>
    cases rest with
    | nil => exact matches_char_iff
    | cons d rest =>
      change Matches (seq (char c) (sequence ((d :: rest).map char))) text ↔ _
      rw [matches_seq_iff]
      constructor
      · rintro ⟨xs, ys, rfl, hc, hrest⟩
        rw [matches_char_iff.mp hc, ih.mp hrest]
        rfl
      · rintro rfl
        exact ⟨[c], d :: rest, rfl, matches_char_iff.mpr rfl, ih.mpr rfl⟩

theorem matches_literal_iff {word : String} : Matches (literal word) text ↔ text = word.toList :=
  matches_sequence_char_iff

theorem matches_star_oneOf_iff {ranges : List (Char × Char)} :
    Matches (star (oneOf ranges)) text ↔ ∀ d ∈ text, inRanges ranges d = true := by
  induction text with
  | nil => exact iff_of_true .stop (by simp)
  | cons d rest ih =>
    rw [matches_star_cons_iff, List.forall_mem_cons, ← ih]
    simp only [matches_oneOf_iff]
    constructor
    · rintro ⟨_, ys, rfl, ⟨_, hd, heq⟩, hys⟩
      cases heq
      exact ⟨hd, hys⟩
    · rintro ⟨hd, hrest⟩
      exact ⟨[], rest, rfl, ⟨d, hd, rfl⟩, hrest⟩

theorem matches_plus_oneOf_iff {ranges : List (Char × Char)} : Matches (plus (oneOf ranges)) text ↔
    text ≠ [] ∧ ∀ d ∈ text, inRanges ranges d = true := by
  rw [plus, matches_seq_iff]
  simp only [matches_oneOf_iff, matches_star_oneOf_iff]
  constructor
  · rintro ⟨_, rest, rfl, ⟨d, hd, rfl⟩, hrest⟩
    exact ⟨List.cons_ne_nil d rest, List.forall_mem_cons.mpr ⟨hd, hrest⟩⟩
  · rintro ⟨hne, hall⟩
    obtain ⟨d, rest, rfl⟩ := List.exists_cons_of_ne_nil hne
    obtain ⟨hd, hrest⟩ := List.forall_mem_cons.mp hall
    exact ⟨[d], rest, rfl, ⟨d, hd, rfl⟩, hrest⟩

end Building

section Characters

/-- The ranges that an expression mentions. -/
def mentioned : Regular → List (Char × Char)
  | empty => []
  | oneOf ranges => ranges
  | seq r s => r.mentioned ++ s.mentioned
  | alt r s => r.mentioned ++ s.mentioned
  | star r => r.mentioned

theorem inRanges_append {ranges more : List (Char × Char)} :
    inRanges (ranges ++ more) c = true ↔ inRanges ranges c = true ∨ inRanges more c = true := by
  rw [inRanges, List.any_append, Bool.or_eq_true]
  rfl

/-- A text that an expression describes has no character that the expression does not mention. -/
theorem Matches.inRanges_mentioned (h : Matches r text) :
    ∀ c ∈ text, inRanges r.mentioned c = true := by
  induction h with
  | empty | stop => exact nofun
  | oneOf h =>
    intro c hc
    obtain rfl := List.mem_singleton.mp hc
    exact h
  | seq _ _ ihr ihs =>
    intro c hc
    exact inRanges_append.mpr ((List.mem_append.mp hc).imp (ihr c) (ihs c))
  | left _ ih =>
    intro c hc
    exact inRanges_append.mpr (.inl (ih c hc))
  | right _ ih =>
    intro c hc
    exact inRanges_append.mpr (.inr (ih c hc))
  | again _ _ ihr ihs =>
    intro c hc
    exact (List.mem_append.mp hc).elim (ihr c) (ihs c)

end Characters
end DeviceSchema.Text.Regular
