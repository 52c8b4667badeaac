import DeviceSchema.Proofs.Construction.ListEnd
import DeviceSchema.Proofs.Construction.Loop
import DeviceSchema.Proofs.Token.Gathering
import DeviceSchema.Text.Pattern

/-! # Reading comes to an end

A loop over clauses goes on only behind a keyword or a comment, which is a token that is not
empty.  No waiting token is left then, and whatever is read behind it makes the rank no greater,
so every turn that goes on leaves less unread than it found (`Loop.Orderly.turn_lt`).  The same
holds of a call, whether it fails or not (`unread_call_lt`).

A loop without a bound therefore ends (`Loop.Ends`).  The bounds of the loops as they are
written are no limit to them: above what is unread, any bound gives the same, for the loop and
for the calls in it (`Loop.Orderly.run_congr`).
-/
namespace DeviceSchema.Statement.Reading
open Token (Stream)

variable {α β κ σ : Type} {p q r : Progress} {token : Token}

section Turns

/-- An empty token begins no clause and no comment. -/
theorem ofToken_of_empty {keywords : List (String × κ)} (h : keywords.lookup "" = none)
    (hempty : token.text = "") : Lead.ofToken keywords token = .other := by
  have hlower : "".toLower = "" := by decide +kernel
  unfold Lead.ofToken
  rw [hempty, hlower, h]
  rfl

/-- Behind a token that was read, none waits. -/
theorem handedBack_token {found : Option Token} (htoken : token? p = .ok found q) :
    q.stream.handedBack = none := by
  cases htoken
  exact p.stream.handedBack_next

/-- Less is unread once a token was read, and so it stays as long as the rank does not grow. -/
theorem unread_lt_of_rank_le (htoken : token? p = .ok (some token) q) (hne : token.text ≠ "")
    (hrank : r.stream.rank ≤ q.stream.rank) : r.stream.unread < p.stream.unread := by
  calc r.stream.unread ≤ r.stream.rank := r.stream.unread_le_rank
    _ ≤ q.stream.rank := hrank
    _ = q.stream.unread := Stream.rank_eq_unread (handedBack_token htoken)
    _ < p.stream.unread := Stream.unread_next_lt (token?_ok htoken) hne

/-- An orderly step makes the rank no greater. -/
theorem Orderly.after_le {m : Reading α} (h : Orderly none m) :
    (after m p).stream.rank ≤ p.stream.rank :=
  h.rank_after_le (Nat.le_refl _) fun t ht => by cases ht

/-- **A turn that goes on leaves less unread.** -/
theorem Loop.Orderly.turn_lt [PatternCompiler] {loop : Loop κ σ} (h : loop.Orderly) {bound : Nat}
    {state state' : σ} (hturn : loop.turn bound state p = .ok (.more state') q) :
    q.stream.unread < p.stream.unread := by
  obtain ⟨found, p₁, htoken, hturn⟩ := bind_ok.mp hturn
  cases found with
  | none =>
    obtain ⟨hdone, -⟩ := pure_ok.mp hturn
    cases hdone
  | some token =>
    dsimp only at hturn
    -- Behind an empty token as much would be unread as before it, but it begins nothing.
    cases hlead : Lead.ofToken loop.keywords token with
    | clause kind =>
      rw [hlead] at hturn
      refine unread_lt_of_rank_le htoken (fun hempty => ?_) ((h.clause bound state kind).rank_ok hturn)
      rw [ofToken_of_empty h.keywords hempty] at hlead
      cases hlead
    | comment =>
      rw [hlead] at hturn
      obtain ⟨u, p₂, hdrop, hturn⟩ := bind_ok.mp hturn
      obtain ⟨-, rfl⟩ := pure_ok.mp hturn
      refine unread_lt_of_rank_le htoken (fun hempty => ?_) (rank_dropLine_ok hdrop)
      rw [ofToken_of_empty h.keywords hempty] at hlead
      cases hlead
    | other =>
      rw [hlead] at hturn
      obtain ⟨state₁, p₂, -, hturn⟩ := bind_ok.mp hturn
      obtain ⟨hdone, -⟩ := pure_ok.mp hturn
      cases hdone

end Turns

/-! ## Bounds are no limit -/

section Bounds
variable {k : Nat}

/-- On streams with a rank below `k`, all bounds above the rank give the same. -/
def Agrees (k : Nat) (F : Nat → Reading α) : Prop :=
  ∀ ⦃p : Progress⦄ ⦃n m : Nat⦄, p.stream.rank < k → p.stream.rank < n → p.stream.rank < m →
    F n p = F m p

theorem agrees_const {m : Reading α} : Agrees k fun _ => m := fun _ _ _ _ _ _ => rfl

theorem Agrees.andThen {F : Nat → Reading α} {g : α → Reading β} (h : Agrees k F) :
    Agrees k fun bound => F bound >>= g :=
  fun _ _ _ hk hn hm => bind_congr_at (h hk hn hm) fun _ _ _ => rfl

/-- Behind an orderly step the rank is still below the bounds. -/
theorem Agrees.behind {m : Reading α} {F : α → Nat → Reading β} (hm : Reading.Orderly none m)
    (h : ∀ a, Agrees k (F a)) : Agrees k fun bound => m >>= fun a => F a bound := by
  refine fun p n n' hk hn hn' => bind_congr_at rfl fun a q hmp => ?_
  have hle := hm.rank_ok hmp
  exact h a (hle.trans_lt hk) (hle.trans_lt hn) (hle.trans_lt hn')

variable [PatternCompiler]

/-- The bounds of calls are no limit to them, on streams with a rank below `k`. -/
def CallsAgree (k : Nat) : Prop := ∀ call : Call, Agrees k fun bound => call.run bound

variable {loop : Loop κ σ} {state : σ} {n m : Nat}

theorem CallsAgree.read (h : CallsAgree k) (clause : Clause σ) :
    Agrees k fun bound => clause.read bound := by
  cases clause with
  | plain turn => exact agrees_const
  | calling call rest => exact (h call).andThen

theorem Loop.Orderly.turn_congr (h : loop.Orderly) (hcalls : CallsAgree k)
    (hk : p.stream.unread ≤ k) (hn : p.stream.unread ≤ n) (hm : p.stream.unread ≤ m) :
    loop.turn n state p = loop.turn m state p := by
  refine bind_congr_at rfl fun found q htoken => ?_
  cases found with
  | none => rfl
  | some token =>
    dsimp only
    cases hlead : Lead.ofToken loop.keywords token with
    | comment | other => rfl
    | clause kind =>
      -- Behind the keyword no token waits, so what is unread is the rank.
      have hne : token.text ≠ "" := fun hempty => by
        rw [ofToken_of_empty h.keywords hempty] at hlead
        cases hlead
      have hlt : q.stream.rank < p.stream.unread := by
        rw [Stream.rank_eq_unread (handedBack_token htoken)]
        exact unread_lt_of_rank_le htoken hne (Nat.le_refl _)
      exact hcalls.read _ (hlt.trans_le hk) (hlt.trans_le hn) (hlt.trans_le hm)

/-- **Above what is unread, any bound gives the same.** -/
theorem Loop.Orderly.run_congr (h : loop.Orderly) (hcalls : CallsAgree k)
    (hk : p.stream.unread ≤ k) (hn : p.stream.unread < n) (hm : p.stream.unread < m) :
    loop.run n state p = loop.run m state p := by
  induction n generalizing m state p with
  | zero => exact absurd hn (Nat.not_lt_zero _)
  | succ n ih =>
    obtain ⟨m, rfl⟩ : ∃ b, m = b + 1 := Nat.exists_eq_succ_of_ne_zero (by omega)
    refine bind_congr_at (h.turn_congr hcalls hk (Nat.le_of_lt_succ hn) (Nat.le_of_lt_succ hm))
      fun turn q hturn => ?_
    cases turn with
    | done state' => rfl
    | more state' =>
      have hlt := h.turn_lt hturn
      exact ih (by omega) (by omega) (by omega)

/-- Without a bound on its turns, the loop ends with a result; `bound` is that of calls. -/
inductive Loop.Ends (loop : Loop κ σ) (bound : Nat) :
    σ → Progress → EStateM.Result Failure Progress σ → Prop
  | done {state state' : σ} {p q : Progress}
      (hturn : loop.turn bound state p = .ok (.done state') q) :
      Ends loop bound state p (.ok state' q)
  | error {state : σ} {p q : Progress} {failure : Failure}
      (hturn : loop.turn bound state p = .error failure q) :
      Ends loop bound state p (.error failure q)
  | more {state state' : σ} {p q : Progress} {result : EStateM.Result Failure Progress σ}
      (hturn : loop.turn bound state p = .ok (.more state') q)
      (h : Ends loop bound state' q result) : Ends loop bound state p result

/-- **The loop without a bound ends, and with what the loop with a bound gives.** -/
theorem Loop.Orderly.ends (h : loop.Orderly) (hcalls : CallsAgree k)
    (hk : p.stream.unread ≤ k) {bound : Nat} (hbound : p.stream.unread ≤ bound)
    (hn : p.stream.unread < n) : loop.Ends bound state p (loop.run n state p) := by
  induction n generalizing state p with
  | zero => exact absurd hn (Nat.not_lt_zero _)
  | succ n ih =>
    -- `run` lowers the bound of the calls as well, which makes no difference above what is unread.
    have hrun : loop.run (n + 1) state p =
        (loop.turn bound state >>= Turn.andThen (loop.run n)) p :=
      bind_congr_at (h.turn_congr hcalls hk (Nat.le_of_lt_succ hn) hbound) fun _ _ _ => rfl
    rw [hrun]
    cases hturn : loop.turn bound state p with
    | error failure q =>
      rw [bind_error.mpr (.inl hturn)]
      exact .error hturn
    | ok turn q =>
      rw [bind_at hturn]
      cases turn with
      | done state' => exact .done hturn
      | more state' =>
        have hlt := h.turn_lt hturn
        exact .more hturn (ih (by omega) (by omega) (by omega))

end Bounds

/-! ## Calls -/

section Calls
variable [PatternCompiler] {k : Nat}

/-- A loop agrees one rank further than the calls in it. -/
theorem Loop.Orderly.agrees {loop : Loop κ σ} (h : loop.Orderly) (hcalls : CallsAgree k)
    (state : σ) : Agrees (k + 1) fun bound => loop.run bound state := by
  intro p n m hk hn hm
  have hle := p.stream.unread_le_rank
  exact h.run_congr hcalls (by omega) (by omega) (by omega)

/-- **The bounds of calls are no limit to them.**  What a call reads behind the keyword of
another has a smaller rank, so this goes by induction on the rank. -/
theorem callsAgree : CallsAgree k := by
  induction k with
  | zero => exact fun call p _ _ hk => absurd hk (Nat.not_lt_zero _)
  | succ k ih =>
    intro call
    -- Whatever stands before the clauses has no bound.  The loop agrees up to `k + 1`, because
    -- its calls are made behind keywords.
    cases call with
    | condition =>
      refine .behind (.still still_line) fun opened => .behind orderly_name fun name => .andThen ?_
      simp only [conditionClauses_eq]
      exact conditionLoop_orderly.agrees ih _
    | group =>
      refine .behind orderly_openGroup fun opening => .andThen ?_
      simp only [groupClauses_eq]
      exact (groupLoop_orderly _).agrees ih _
    | element access parent =>
      refine .behind (.still still_line) fun opened => .behind orderly_name fun name =>
        .behind orderly_label? fun label => .behind orderly_help? fun help =>
        .behind (orderly_taking Info.withinTable_ofItem) fun info =>
        .behind (.still still_note) fun _ => .andThen ?_
      simp only [elementClauses_eq]
      exact (elementLoop_orderly _ _).agrees ih _
    | list access parent outer =>
      refine .behind orderly_openList fun opening => .andThen ?_
      simp only [listClauses_eq]
      exact (listLoop_orderly _).agrees ih _

end Calls

/-! ## What comes to an end -/

section Ending

/-- The readings `f` are a loop that ends. -/
structure Loop.Terminates [PatternCompiler] (loop : Loop κ σ) (f : Nat → σ → Reading σ) : Prop where
  /-- They go on by turns of the loop. -/
  turns (bound : Nat) (state : σ) :
    f (bound + 1) state = loop.turn bound state >>= Turn.andThen (f bound)
  /-- From one turn to the next, less is unread. -/
  unread_lt {bound : Nat} {state state' : σ} {p q : Progress}
    (hturn : loop.turn bound state p = .ok (.more state') q) : q.stream.unread < p.stream.unread
  /-- The loop ends without a bound on its turns, and the bound does not matter. -/
  ends {bound : Nat} {state : σ} {p : Progress} (hbound : p.stream.unread < bound) :
    loop.Ends bound state p (f bound state p)

theorem Loop.Orderly.terminates [PatternCompiler] {loop : Loop κ σ} {f : Nat → σ → Reading σ}
    (h : loop.Orderly) (hf : ∀ bound state, f bound state = loop.run bound state) :
    loop.Terminates f where
  turns bound state := by rw [hf, Loop.run, funext (hf bound)]
  unread_lt := h.turn_lt
  ends hbound := by
    rw [hf]
    exact h.ends callsAgree (Nat.le_refl _) (Nat.le_of_lt hbound) hbound

/-- The loop that gathers the tokens of an expression ends. -/
structure GatheringTerminates (start : Stream) : Prop where
  turns {text : String} {s : Stream} (bound : Nat) : s.gather (bound + 1) text =
    match s.gathersOn? text with
    | some (text, s) => s.gather bound text
    | none => s.gather 1 text
  unread_lt {text text' : String} {s s' : Stream} (h : start.Gathering text s)
    (hmore : s.gathersOn? text = some (text', s')) : s'.unread < s.unread
  ends {bound : Nat} (hbound : Ceiling.expressionLength < bound) :
    start.gather bound "" = start.readExpression

theorem gathering_terminates (start : Stream) : GatheringTerminates start where
  turns {text s} bound := by
    cases hmore : s.gathersOn? text with
    | none => exact Stream.gather_ends hmore
    | some next =>
      obtain ⟨-, -, -, -, -, hgather⟩ := Stream.gathersOn?_eq_some hmore
      exact hgather bound
  unread_lt h := h.unread_lt
  ends hbound := Stream.Gathering.start.gather_congr hbound (Nat.lt_succ_self _)

/-- **A call leaves less unread than there was before its keyword**, whether it fails or not. -/
theorem unread_call_lt [PatternCompiler] {call : Call} {bound : Nat}
    (htoken : token? p = .ok (some token) q) (hkeyword : token.text.toLower = call.construct.word) :
    (after (call.run bound) q).stream.unread < p.stream.unread := by
  have hword : ∀ construct : Construct, "".toLower ≠ construct.word := by
    rintro (_ | _ | _ | _) <;> decide +kernel
  refine unread_lt_of_rank_le htoken (fun hempty => ?_) call.orderly.after_le
  rw [hempty] at hkeyword
  exact hword _ hkeyword

/-- **Reading comes to an end.**  In every loop, less is unread from one turn to the next.  A
call leaves less unread than there was before its keyword.  So the loops end without a bound,
and the bounds that they are written with, for themselves and for the calls in them, are no
limit. -/
theorem reading_terminates [PatternCompiler] :
    (∀ opened here, (elementLoop opened here).Terminates (elementClauses opened here)) ∧
    conditionLoop.Terminates conditionClauses ∧
    (∀ place, (listLoop place).Terminates fun bound => listClauses bound place) ∧
    (∀ place, (groupLoop place).Terminates (groupClauses place)) ∧
    statementLoop.Terminates (fun bound _ => statements bound) ∧
    (∀ start, GatheringTerminates start) ∧
    (∀ (call : Call) (bound : Nat) (token : Token) (p q : Progress),
      token? p = .ok (some token) q → token.text.toLower = call.construct.word →
      (after (call.run bound) q).stream.unread < p.stream.unread) ∧
    (∀ (call : Call) (n m : Nat) (p : Progress), p.stream.rank < n → p.stream.rank < m →
      call.run n p = call.run m p) ∧
    ∀ (bound : Nat) (p : Progress), p.stream.unread ≤ bound →
      statementLoop.Ends bound () p (readAll p) := by
  refine ⟨fun opened here => ?_, ?_, fun place => ?_, fun place => ?_, ?_, gathering_terminates,
    fun _ _ _ _ _ => unread_call_lt, fun call n m p hn hm => ?_, fun bound p hbound => ?_⟩
  · exact (elementLoop_orderly opened here).terminates fun _ => elementClauses_eq
  · exact conditionLoop_orderly.terminates fun _ => conditionClauses_eq
  · exact (listLoop_orderly place).terminates fun _ => listClauses_eq
  · exact (groupLoop_orderly place).terminates fun _ => groupClauses_eq
  · exact statementLoop_orderly.terminates fun _ _ => statements_eq
  · exact callsAgree call (Nat.lt_succ_self _) hn hm
  · rw [readAll, statements_eq]
    exact statementLoop_orderly.ends callsAgree (Nat.le_refl _) hbound (Nat.lt_succ_self _)

/-- The start of a source with one group. -/
def groupStart : Progress where
  stream := ⟨none, Stream.numberedLines "group setting g \"G\" element e \"E\" type on_off", 0, none⟩
  session := .ofLimits {}

attribute [local instance] Text.Pattern.compiler in
theorem reading_terminates_small : ∃ token q, token? groupStart = .ok (some token) q ∧
    token.text.toLower = Call.group.construct.word ∧
    (after (Call.group.run 40) q).stream.unread < groupStart.stream.unread ∧
    statementLoop.Ends 40 () groupStart (readAll groupStart) := by
  obtain ⟨-, -, -, -, -, -, hcall, -, hends⟩ := reading_terminates
  have hkeyword : groupStart.stream.next.1.map (·.text.toLower) = some "group" := by decide +kernel
  obtain ⟨token, htoken, hword⟩ := Option.map_eq_some_iff.mp hkeyword
  have hread : token? groupStart = .ok (some token) { groupStart with
      stream := groupStart.stream.next.2 } := by
    rw [← htoken]
    rfl
  exact ⟨token, _, hread, hword, hcall .group 40 token _ _ hread hword,
    hends 40 groupStart (by decide +kernel)⟩

end Ending
end DeviceSchema.Statement.Reading
