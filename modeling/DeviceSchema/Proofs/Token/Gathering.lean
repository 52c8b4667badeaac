import DeviceSchema.Proofs.Token.Rank
import DeviceSchema.Token.Expression

/-! # Gathering the tokens of an expression

The tokens of an expression are joined in a loop until the parentheses balance.  A turn of
this loop reads a token, and it either goes on with a longer text (`gathersOn?`) or ends.
The loop never runs out of its bound: a turn that goes on has added a character to a text that
is not too long yet.  It also leaves less of the source unread.

The one exception would be an empty token that was handed back.  It can only be the first
token that is read, and then there is no parenthesis to balance.
-/
namespace DeviceSchema.Token.Stream
open Text

/-- The text and the stream with which the loop goes on behind the next token, if it does. -/
def gathersOn? (text : String) (s : Stream) : Option (String × Stream) :=
  if text.length > 0 && s.peekStartsWith '"' then none
  else match s.next with
    | (none, _) => none
    | (some token, s) =>
      let text := text ++ token.text
      if text.length ≤ Ceiling.expressionLength ∧ 0 < openParens text.toList then some (text, s)
      else none

/-- The turns of the loop that gathers an expression from `start`. -/
inductive Gathering (start : Stream) : String → Stream → Prop
  | start : Gathering start "" start
  | more {text text' : String} {s s' : Stream} (h : Gathering start text s)
      (hmore : gathersOn? text s = some (text', s')) : Gathering start text' s'

section Turns
variable {text text' : String} {s s' start : Stream} {bound : Nat}

/-- A turn goes on with the token that it reads unless joining ends there. -/
theorem gathersOn?_token {token : Token}
    (hquote : (decide (text.length > 0) && s.peekStartsWith '"') = false)
    (hnext : s.next = (some token, s')) : gathersOn? text s =
      if verdict? (text ++ token.text) = none then some (text ++ token.text, s') else none := by
  rw [gathersOn?, hquote, if_neg Bool.false_ne_true, hnext]
  simp only [verdict?_eq_none]

/-- A turn that does not go on ends the loop, whatever the bound. -/
theorem gather_ends (h : gathersOn? text s = none) : s.gather (bound + 1) text = s.gather 1 text := by
  cases hquote : decide (text.length > 0) && s.peekStartsWith '"' with
  | true => rw [gather_quote hquote, gather_quote hquote]
  | false =>
    cases hnext : s.next with
    | mk found s' =>
      cases found with
      | none => rw [gather_none hquote hnext, gather_none hquote hnext]
      | some token =>
        rw [gather_token hquote hnext, gather_token hquote hnext]
        rw [gathersOn?_token hquote hnext] at h
        cases hverdict : verdict? (text ++ token.text) with
        | some result => rfl
        | none =>
          rw [if_pos hverdict] at h
          cases h

/-- What is known of a turn that goes on. -/
theorem gathersOn?_eq_some (h : gathersOn? text s = some (text', s')) :
    ∃ token, s.next = (some token, s') ∧ text' = text ++ token.text ∧
      text'.length ≤ Ceiling.expressionLength ∧ 0 < openParens text'.toList ∧
      ∀ bound, s.gather (bound + 1) text = s'.gather bound text' := by
  cases hquote : decide (text.length > 0) && s.peekStartsWith '"' with
  | true =>
    rw [gathersOn?, if_pos hquote] at h
    cases h
  | false =>
    cases hnext : s.next with
    | mk found s₁ =>
      cases found with
      | none =>
        rw [gathersOn?, hquote, if_neg Bool.false_ne_true, hnext] at h
        cases h
      | some token =>
        rw [gathersOn?_token hquote hnext] at h
        cases hverdict : verdict? (text ++ token.text) with
        | some result =>
          rw [hverdict, if_neg (Option.some_ne_none _)] at h
          cases h
        | none =>
          rw [if_pos hverdict] at h
          cases h
          obtain ⟨hlength, hopen⟩ := verdict?_eq_none.mp hverdict
          refine ⟨token, rfl, rfl, hlength, hopen, fun bound => ?_⟩
          rw [gather_token hquote hnext, hverdict]

/-- A word of the source is not empty. -/
theorem text_ne_of_next (hback : s.handedBack = none) {token : Token}
    (h : s.next = (some token, s')) : token.text ≠ "" := by
  unfold next at h
  rw [hback] at h
  dsimp only at h
  split at h
  · cases h
  · rename_i c s₁ hseek
    obtain ⟨-, -, -, hword⟩ := rank_seek hback
    rw [hseek] at hword
    cases h
    intro hempty
    have hnil := congrArg String.toList hempty
    rw [ofCursor, String.toList_ofList] at hnil
    exact (hword c rfl).firstWord_ne_nil hnil

/-- Once the loop has gone on, no token waits.  The text is within the ceiling. -/
theorem Gathering.begun (h : Gathering start text s) :
    (text = "" ∨ s.handedBack = none) ∧ text.length ≤ Ceiling.expressionLength := by
  cases h with
  | start => exact ⟨.inl rfl, Nat.zero_le _⟩
  | @more _ _ s₁ _ h hmore =>
    obtain ⟨token, hnext, -, hlength, -⟩ := gathersOn?_eq_some hmore
    have hback := s₁.handedBack_next
    rw [hnext] at hback
    exact ⟨.inr hback, hlength⟩

/-- A turn that goes on has read a token that is not empty. -/
theorem Gathering.token (h : Gathering start text s)
    (hmore : gathersOn? text s = some (text', s')) :
    ∃ token, s.next = (some token, s') ∧ token.text ≠ "" ∧ text' = text ++ token.text := by
  obtain ⟨token, hnext, htext, -, hopen, -⟩ := gathersOn?_eq_some hmore
  refine ⟨token, hnext, ?_, htext⟩
  rcases h.begun.1 with rfl | hback
  · -- Nothing has been gathered, so an empty token would leave no parenthesis open.
    rintro hempty
    rw [htext, hempty] at hopen
    exact absurd hopen (by decide)
  · exact text_ne_of_next hback hnext

/-- **A turn that goes on leaves less unread.** -/
theorem Gathering.unread_lt (h : Gathering start text s)
    (hmore : gathersOn? text s = some (text', s')) : s'.unread < s.unread := by
  obtain ⟨token, hnext, hne, -⟩ := h.token hmore
  exact unread_next_lt hnext hne

/-- **The loop does not run out of its bound.** -/
theorem Gathering.gather_congr (h : Gathering start text s) {n m : Nat}
    (hn : Ceiling.expressionLength < n + text.length)
    (hm : Ceiling.expressionLength < m + text.length) : s.gather n text = s.gather m text := by
  have hlength := h.begun.2
  induction n generalizing m text s with
  | zero => omega
  | succ n ih =>
    obtain ⟨m, rfl⟩ : ∃ k, m = k + 1 := Nat.exists_eq_succ_of_ne_zero (by omega)
    cases hmore : gathersOn? text s with
    | none => exact (gather_ends hmore).trans (gather_ends hmore).symm
    | some next =>
      obtain ⟨text', s'⟩ := next
      obtain ⟨-, -, -, hlength', -, hgather⟩ := gathersOn?_eq_some hmore
      obtain ⟨token, -, hne, htext⟩ := h.token hmore
      -- The text grows by what the bound shrinks at least.
      have hpos : 0 < token.text.length :=
        Nat.pos_of_ne_zero fun hzero => hne (String.length_eq_zero_iff.mp hzero)
      have hlonger : text'.length = text.length + token.text.length := by
        rw [htext, String.length_append]
      rw [hgather, hgather]
      exact ih (h.more hmore) (by omega) (by omega) hlength'

end Turns
end DeviceSchema.Token.Stream
