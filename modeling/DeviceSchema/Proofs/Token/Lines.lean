import DeviceSchema.Proofs.Token.Rank
import DeviceSchema.Token.Expression

/-! # The line of a stream

A stream keeps the number of a line: of the one that it entered last, or of a token's line
that it returned to.  Two things are of interest about it.  One is that it is a line of the
source, like the lines of all tokens (`LineRule.within`).  The other is sharper: behind a token,
it is the line of this token, also if the token was handed back in between
(`LineRule.exact`).

Both are kept by reading for the same reasons, so the lemmas are about any **rule** that tells
which numbers are good and which are near that of the stream (`Stream.Obeys`).
-/
namespace DeviceSchema.Token

/-- A rule for the numbers of lines. -/
structure LineRule where
  good : Nat → Prop
  /-- Whether the number of a word's line is near that of the stream. -/
  near : Nat → Nat → Prop
  near_self {n : Nat} (h : good n) : near n n
  good_of_near {m n : Nat} (h : near m n) : good m

/-- All lines are numbered from one to `count`. -/
def LineRule.within (count : Nat) : LineRule where
  good n := 1 ≤ n ∧ n ≤ count
  near m _ := 1 ≤ m ∧ m ≤ count
  near_self h := h
  good_of_near h := h

/-- The line of a word is that of the stream. -/
def LineRule.exact : LineRule where
  good _ := True
  near m n := m = n
  near_self _ := rfl
  good_of_near _ := trivial

namespace Stream

/-- What the stream is to read and what it has read last obey the rule. -/
structure Obeys (rule : LineRule) (s : Stream) : Prop where
  ahead : ∀ l ∈ s.ahead, rule.good l.number
  line : rule.good s.line
  cursor : ∀ c ∈ s.cursor, rule.near c.line s.line
  handedBack : ∀ t ∈ s.handedBack, rule.near t.line s.line

section Obeying
variable {rule : LineRule} {s s' : Stream} {t : Token} {c c' : Cursor}

theorem line_word? (h : c.word? = some c') : c'.line = c.line := by
  obtain ⟨-, hline, -⟩ := Cursor.word?_eq_some h
  exact hline

/-- Entering lines leads to a word of a line ahead, if to any. -/
theorem Obeys.enterLines {ahead : List Line} {line : Nat} (hahead : ∀ l ∈ ahead, rule.good l.number)
    (hline : rule.good line) :
    Obeys rule ⟨(enterLines line ahead).1, (enterLines line ahead).2.2,
      (enterLines line ahead).2.1, none⟩ := by
  induction ahead generalizing line with
  | nil => exact ⟨hahead, hline, fun c hc => (by cases hc), fun t ht => by cases ht⟩
  | cons next below ih =>
    have hbelow : ∀ l ∈ below, rule.good l.number := fun l hl =>
      hahead l (List.mem_cons_of_mem next hl)
    have hnext : rule.good next.number := hahead next List.mem_cons_self
    rw [Stream.enterLines]
    cases hw : (Cursor.atLine next below).word? with
    | none => exact ih hbelow hnext
    | some c =>
      refine ⟨hbelow, hnext, fun d hd => ?_, fun t ht => by cases ht⟩
      cases hd
      rw [line_word? hw]
      exact rule.near_self hnext

theorem Obeys.seek (h : s.Obeys rule) (hback : s.handedBack = none) : s.seek.2.Obeys rule := by
  unfold Stream.seek
  split
  · rename_i w hw
    obtain ⟨c, hc, hword⟩ := Option.bind_eq_some_iff.mp hw
    refine ⟨h.ahead, h.line, ?_, h.handedBack⟩
    rintro d ⟨⟩
    rw [line_word? hword]
    exact h.cursor c hc
  · have henter := Obeys.enterLines h.ahead h.line
    dsimp only
    rw [hback]
    exact henter

/-- **A token that is read is near the stream behind it.** -/
theorem Obeys.next (h : s.Obeys rule) :
    s.next.2.Obeys rule ∧ ∀ t ∈ s.next.1, rule.near t.line s.next.2.line := by
  unfold Stream.next
  split
  · rename_i t hback
    refine ⟨⟨h.ahead, h.line, h.cursor, nofun⟩, ?_⟩
    rintro _ ⟨⟩
    exact h.handedBack t hback
  · rename_i hback
    have hseek := h.seek hback
    obtain ⟨-, hback', hcursor, -⟩ := rank_seek hback
    split
    · rename_i s₁ hfound
      rw [hfound] at hseek
      exact ⟨hseek, nofun⟩
    · rename_i c s₁ hfound
      rw [hfound] at hseek hback' hcursor
      have hnear : rule.near c.line s₁.line := hseek.cursor c hcursor
      refine ⟨⟨hseek.ahead, hseek.line, ?_, hseek.handedBack⟩, ?_⟩
      · rintro d ⟨⟩
        exact hnear
      · rintro t ⟨⟩
        exact hnear

theorem Obeys.handBack (h : s.Obeys rule) (ht : rule.near t.line s.line)
    (hback : s.handBack t = .ok s') : s'.Obeys rule := by
  obtain ⟨-, rfl⟩ := handBack_eq_ok.mp hback
  refine ⟨h.ahead, h.line, h.cursor, ?_⟩
  rintro _ ⟨⟩
  exact ht

theorem Obeys.dropLine (h : s.Obeys rule) : s.dropLine.Obeys rule :=
  ⟨h.ahead, h.line, nofun, h.handedBack⟩

/-- Going back to a token that waits is going back to its line. -/
theorem Obeys.rewind (h : s.Obeys rule) : s.rewind.Obeys rule := by
  unfold Stream.rewind
  split
  · rename_i t hback
    have hgood : rule.good t.line := rule.good_of_near (h.handedBack t hback)
    refine ⟨h.ahead, hgood, ?_, nofun⟩
    rintro c ⟨⟩
    exact rule.near_self hgood
  · exact h

theorem Obeys.nextQuoted (h : s.Obeys rule) : s.nextQuoted.2.Obeys rule := by
  obtain ⟨-, hback⟩ := s.rank_rewind_le
  have hseek := h.rewind.seek hback
  obtain ⟨-, -, hcursor, -⟩ := rank_seek hback
  unfold Stream.nextQuoted
  split
  · rename_i s₁ hfound
    rwa [hfound] at hseek
  · rename_i c s₁ hfound
    rw [hfound] at hseek hcursor
    split
    · exact hseek
    · rename_i body after hquoted
      obtain ⟨lead, rest, -, -, -, rfl⟩ := Cursor.quoted?_eq_some hquoted
      refine ⟨hseek.ahead, hseek.line, ?_, hseek.handedBack⟩
      rintro d ⟨⟩
      exact hseek.cursor c hcursor

theorem Obeys.nextInt (h : s.Obeys rule) : s.nextInt.2.Obeys rule := by
  unfold Stream.nextInt
  dsimp only
  split <;> exact h.next.1

theorem Obeys.nextExpression (h : s.Obeys rule) : s.nextExpression.2.Obeys rule := by
  unfold Stream.nextExpression
  exact gather_keeps (Obeys rule) (fun _ hs => hs.next.1) h _ _

end Obeying

/-- Texts as lines that are numbered from behind `index` on. -/
def numbered (index : Nat) (texts : List (List Char)) : List Line :=
  (texts.zipIdx index).map fun (text, index) => ⟨index + 1, text⟩

theorem numbered_cons (index : Nat) (text : List Char) (texts : List (List Char)) :
    numbered index (text :: texts) = ⟨index + 1, text⟩ :: numbered (index + 1) texts := rfl

theorem length_numbered (index : Nat) (texts : List (List Char)) :
    (numbered index texts).length = texts.length := by
  rw [numbered, List.length_map, List.length_zipIdx]

section Sources
variable {source : String} {s : Stream}

theorem numberedLines_eq (source : String) :
    numberedLines source = numbered 0 (Text.lines source.toList) := rfl

/-- The lines of a source are numbered from one on. -/
theorem number_of_mem_numberedLines {l : Line} (h : l ∈ numberedLines source) :
    1 ≤ l.number ∧ l.number ≤ Text.lineCount source.toList := by
  obtain ⟨⟨text, index⟩, hmem, rfl⟩ := List.mem_map.mp h
  have hindex := (List.mem_zipIdx hmem).2.1
  dsimp only
  rw [Text.lineCount]
  omega

/-- At its start a stream has no line yet.  If it has a token, it may as well start on the
first line, and then it obeys any rule that the lines of the source obey. -/
theorem exists_obeys {rule : LineRule} {t : Token} (h : ofSource source = .ok s)
    (hlines : ∀ l ∈ numberedLines source, rule.good l.number) (htoken : s.next.1 = some t) :
    ∃ s₁ : Stream, s₁.Obeys rule ∧ s₁.next = s.next := by
  obtain rfl := eq_of_ofSource h
  cases hsource : numberedLines source with
  | nil =>
    rw [hsource] at htoken
    cases htoken
  | cons l below =>
    rw [hsource] at hlines
    have hstart : Obeys rule ⟨none, l :: below, l.number, none⟩ :=
      ⟨hlines, hlines l List.mem_cons_self, nofun, nofun⟩
    -- The first line is entered anyway, so the line before does not matter.
    exact ⟨⟨none, l :: below, l.number, none⟩, hstart, rfl⟩

/-- Nothing has been read at the start, so there every line is as it should be. -/
theorem exact_ofSource (h : ofSource source = .ok s) : s.Obeys .exact := by
  rw [eq_of_ofSource h]
  exact ⟨fun _ _ => trivial, trivial, nofun, nofun⟩

end Sources
end Stream
end DeviceSchema.Token
