import DeviceSchema.Proofs.Token.Reached

/-! # A measure of what is left to read

A loop over clauses goes on as long as there are tokens, and it may hand the last one back
to the loop around it.  Its bound is no limit to it if some number gets smaller with every
token that is not handed back.

This number is the **rank** of a stream (`Stream.rank`).  It counts the characters that are
not blank, as `unread` does, with two provisos for a token that waits: it counts for
something even if it is empty, and reading in quotes goes back to where it starts, so what
follows there counts too.  No step makes the rank greater, reading a token makes it smaller
and handing the token back restores at most what it was.  That holds of every stream, whether
or not it reads the lines of a source.
-/
namespace DeviceSchema.Token
open Text

namespace Stream

/-- What counts of the line and of a token that waits. -/
def rankHere (cursor : Option Cursor) : Option Token → Nat
  | none => (cursor.map fun c => inked c.rest).getD 0
  | some t => max (max t.text.length 1 + (cursor.map fun c => inked c.rest).getD 0)
      (inked t.start.rest)

/-- The rank of a stream. -/
def rank (s : Stream) : Nat :=
  rankHere s.cursor s.handedBack + inked (s.ahead.flatMap Line.text)

section Ranks
variable {s s' : Stream} {t : Token} {c w : Cursor}

theorem rank_eq_unread (h : s.handedBack = none) : s.rank = s.unread := by
  rw [rank, unread_eq, h, rankHere, Option.map_none, Option.getD_none, Nat.zero_add]

theorem unread_le_rank (s : Stream) : s.unread ≤ s.rank := by
  rw [rank, unread_eq]
  refine Nat.add_le_add_right ?_ _
  cases s.handedBack with
  | none => simp [rankHere]
  | some t =>
    simp only [rankHere, Option.map_some, Option.getD_some]
    omega

theorem handBack_eq_ok : s.handBack t = .ok s' ↔
    s.handedBack = none ∧ { s with handedBack := some t } = s' := by
  unfold handBack
  cases s.handedBack <;> simp

/-- A token that waits counts. -/
theorem rank_lt_handBack (h : s.handBack t = .ok s') : s.rank < s'.rank := by
  obtain ⟨hnone, rfl⟩ := handBack_eq_ok.mp h
  simp only [rank, hnone, rankHere]
  omega

theorem inked_word?_le (h : c.word? = some w) : inked w.rest ≤ inked c.rest := by
  obtain ⟨-, -, -, gap, hgap, -⟩ := Cursor.word?_eq_some h
  rw [hgap, inked_append]
  exact Nat.le_add_left _ _

theorem inked_quoted?_le {body : List Char} (h : c.quoted? = some (body, w)) :
    inked w.rest ≤ inked c.rest := by
  obtain ⟨lead, rest, hrest, -, -, rfl⟩ := Cursor.quoted?_eq_some h
  have hinked : c.rest = (lead ++ '"' :: (body ++ ['"'])) ++ rest := by simp [hrest]
  rw [hinked, inked_append]
  exact Nat.le_add_left _ _

/-- The characters of a word are not blank. -/
theorem inked_firstWord (text : List Char) : inked (firstWord text) = (firstWord text).length :=
  List.countP_eq_length.mpr fun _ hd =>
    List.mem_takeWhile_imp (p := fun d => !isBlank d) hd

theorem rank_enterLines (ahead : List Line) (line : Nat) :
    rank ⟨(enterLines line ahead).1, (enterLines line ahead).2.2,
        (enterLines line ahead).2.1, none⟩ ≤ inked (ahead.flatMap Line.text) ∧
      ∀ c ∈ (enterLines line ahead).1, c.OnWord := by
  induction ahead generalizing line with
  | nil => exact ⟨Nat.le_refl 0, fun c hc => by cases hc⟩
  | cons next below ih =>
    rw [enterLines, List.flatMap_cons, inked_append]
    cases hw : (Cursor.atLine next below).word? with
    | none =>
      obtain ⟨hle, hword⟩ := ih next.number
      exact ⟨hle.trans (Nat.le_add_left _ _), hword⟩
    | some c =>
      have hle : inked c.rest ≤ inked next.text := inked_word?_le hw
      refine ⟨Nat.add_le_add_right hle _, fun d hd => ?_⟩
      cases hd
      exact (Cursor.word?_eq_some hw).1

/-- Moving to a word passes over blanks only. -/
theorem rank_seek (h : s.handedBack = none) :
    s.seek.2.rank ≤ s.rank ∧ s.seek.2.handedBack = none ∧ s.seek.2.cursor = s.seek.1 ∧
      ∀ c ∈ s.seek.1, c.OnWord := by
  obtain ⟨cursor, ahead, line, handedBack⟩ := s
  cases h
  cases hw : cursor.bind Cursor.word? with
  | some w =>
    obtain ⟨c, rfl, hc⟩ := Option.bind_eq_some_iff.mp hw
    have hseek : seek ⟨some c, ahead, line, none⟩ = (some w, ⟨some w, ahead, line, none⟩) := by
      simp only [seek, hw]
    rw [hseek]
    refine ⟨Nat.add_le_add_right (inked_word?_le hc) _, rfl, rfl, fun d hd => ?_⟩
    cases hd
    exact (Cursor.word?_eq_some hc).1
  | none =>
    obtain ⟨hle, hword⟩ := rank_enterLines ahead line
    have hseek : seek ⟨cursor, ahead, line, none⟩ = ((enterLines line ahead).1,
        ⟨(enterLines line ahead).1, (enterLines line ahead).2.2, (enterLines line ahead).2.1,
          none⟩) := by
      simp only [seek, hw]
    rw [hseek]
    exact ⟨hle.trans (Nat.le_add_left _ _), rfl, rfl, hword⟩

theorem rank_next_none (h : s.next = (none, s')) : s'.rank ≤ s.rank := by
  unfold next at h
  split at h
  · cases h
  · rename_i hnone
    split at h
    · rename_i s'' hseek
      cases h
      have hle := (rank_seek hnone).1
      rwa [hseek] at hle
    · cases h

/-- **A token that was read can be handed back, and the rank is then no greater than
before.** -/
theorem rank_next_some (h : s.next = (some t, s')) :
    ∃ s'', s'.handBack t = .ok s'' ∧ s''.rank ≤ s.rank := by
  unfold next at h
  split at h
  · rename_i hback
    cases h
    refine ⟨s, ?_, Nat.le_refl _⟩
    obtain ⟨cursor, ahead, line, handedBack⟩ := s
    cases hback
    rfl
  · rename_i hnone
    split at h
    · cases h
    · rename_i c s₁ hseek
      obtain ⟨hle, hback, hcursor, hword⟩ := rank_seek hnone
      rw [hseek] at hle hback hcursor hword
      cases h
      refine ⟨_, handBack_eq_ok.mpr ⟨hback, rfl⟩, le_trans ?_ hle⟩
      -- The word at the cursor counts the same, whether it is read or not.
      have hpos := inked_firstWord_pos (hword c rfl)
      have hrest := congrArg inked c.rest_eq
      rw [inked_append] at hrest
      have htext := Cursor.length_ofCursor c
      have hlength := inked_firstWord c.rest
      have hstart : (ofCursor c).start.rest = c.rest := rfl
      dsimp only at hcursor hback
      simp only [rank, rankHere, hcursor, hback, Option.map_some, Option.getD_some, hstart]
      omega

/-- Once a token was asked for, none waits. -/
theorem handedBack_next (s : Stream) : s.next.2.handedBack = none := by
  unfold next
  split
  · rfl
  · rename_i hnone
    have hback := (rank_seek hnone).2.1
    split
    · rename_i s' hseek
      rwa [hseek] at hback
    · rename_i c s' hseek
      rwa [hseek] at hback

/-- Reading a token makes the rank smaller. -/
theorem rank_next_lt (h : s.next = (some t, s')) : s'.rank < s.rank := by
  obtain ⟨s'', hback, hle⟩ := rank_next_some h
  exact (rank_lt_handBack hback).trans_le hle

/-- Less is unread once a token was read, unless it is an empty one that was handed back. -/
theorem unread_next_lt (h : s.next = (some t, s')) (hne : t.text ≠ "") : s'.unread < s.unread := by
  cases hback : s.handedBack with
  | none =>
    have hlt := rank_next_lt h
    have hback' := s.handedBack_next
    rw [h] at hback'
    rwa [rank_eq_unread hback, rank_eq_unread hback'] at hlt
  | some waiting =>
    simp only [next, hback] at h
    cases h
    have hpos : 0 < t.text.length :=
      Nat.pos_of_ne_zero fun hzero => hne (String.length_eq_zero_iff.mp hzero)
    simp only [unread_eq, hback, Option.map_some, Option.map_none, Option.getD_some,
      Option.getD_none]
    omega

theorem rank_next_le (s : Stream) : s.next.2.rank ≤ s.rank := by
  cases h : s.next with
  | mk found s' =>
    cases found with
    | none => exact rank_next_none h
    | some t => exact (rank_next_lt h).le

theorem rank_rewind_le (s : Stream) : s.rewind.rank ≤ s.rank ∧ s.rewind.handedBack = none := by
  obtain ⟨cursor, ahead, line, handedBack⟩ := s
  cases handedBack with
  | none => exact ⟨Nat.le_refl _, rfl⟩
  | some t => exact ⟨Nat.add_le_add_right (Nat.le_max_right _ _) _, rfl⟩

theorem rank_nextQuoted_le (s : Stream) : s.nextQuoted.2.rank ≤ s.rank := by
  obtain ⟨hrewind, hnone⟩ := s.rank_rewind_le
  obtain ⟨hle, hback, hcursor, -⟩ := rank_seek hnone
  unfold nextQuoted
  split
  · rename_i s₁ hseek
    rw [hseek] at hle
    exact hle.trans hrewind
  · rename_i c s₁ hseek
    rw [hseek] at hle hback hcursor
    split
    · exact hle.trans hrewind
    · rename_i body w hquoted
      refine le_trans (Nat.add_le_add_right ?_ _) (hle.trans hrewind)
      rw [hback, hcursor]
      exact inked_quoted?_le hquoted

theorem rank_nextInt_le (s : Stream) : s.nextInt.2.rank ≤ s.rank := by
  unfold nextInt
  dsimp only
  split <;> exact s.rank_next_le

theorem rank_nextExpression_le (s : Stream) : s.nextExpression.2.rank ≤ s.rank := by
  unfold nextExpression
  exact gather_keeps (fun s' => s'.rank ≤ s.rank) (fun s' hs => s'.rank_next_le.trans hs)
    (Nat.le_refl _) _ _

theorem rank_dropLine_le (s : Stream) : s.dropLine.rank ≤ s.rank := by
  obtain ⟨cursor, ahead, line, handedBack⟩ := s
  refine Nat.add_le_add_right ?_ _
  cases handedBack with
  | none => exact Nat.zero_le _
  | some t =>
    simp only [dropLine, rankHere, Option.map_none, Option.getD_none]
    omega

end Ranks
end Stream
end DeviceSchema.Token
