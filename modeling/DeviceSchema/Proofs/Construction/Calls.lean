import DeviceSchema.Proofs.Construction.ListEnd
import DeviceSchema.Proofs.Construction.Loop

/-! # The calls of a reading

Constructs are read one inside the other, each by a call behind its keyword.  A `Site` is a
call that is made, with the keyword and the progress behind it.  A loop makes calls, one or
none in each turn (`Loop.Makes`), and so do the groups and lists that loops are read for
(`Site.Makes`); elements and conditions make none.

If a call fails, so does whatever makes it, and with the same failure (`Site.Makes.fails`).
A call is made where its keyword was read, and the stream is still on the line of the keyword
then (`Site.Placed`), also if the keyword had been handed back before.
-/
namespace DeviceSchema.Statement.Reading
open Token (Stream)

/-- A call that is made, behind its keyword. -/
structure Site where
  keyword : Token
  call : Call
  /-- The bound on the loops in the call. -/
  bound : Nat
  progress : Progress

/-- The reading of the construct fails. -/
def Site.Fails [PatternCompiler] (site : Site) (failure : Failure) : Prop :=
  ∃ q, site.call.run site.bound site.progress = .error failure q

variable {α κ σ : Type} {loop : Loop κ σ} {bound : Nat} {state : σ} {p q : Progress}
variable {token : Token} {kind : κ} {site below : Site} {failure : Failure}

/-- A loop makes a call in its first turn, or later. -/
inductive Loop.Makes [PatternCompiler] (loop : Loop κ σ) : Nat → σ → Progress → Site → Prop
  | now {bound : Nat} {state : σ} {p q : Progress} {token : Token} {kind : κ} {call : Call}
      {rest : call.Result → Reading (Turn σ)} (htoken : token? p = .ok (some token) q)
      (hlead : Lead.ofToken loop.keywords token = .clause kind)
      (hcall : loop.clause state kind = .calling call rest) :
      Makes loop (bound + 1) state p ⟨token, call, bound, q⟩
  | later {bound : Nat} {state state' : σ} {p q : Progress} {site : Site}
      (hturn : loop.turn bound state p = .ok (.more state') q)
      (h : Makes loop bound state' q site) : Makes loop (bound + 1) state p site

/-- A group or a list makes the calls of its clauses. -/
inductive Site.Makes [PatternCompiler] : Site → Site → Prop
  | group {keyword : Token} {bound : Nat} {p q : Progress} {place : GroupPlace} {g : Group}
      {site : Site} (hopen : openGroup p = .ok (place, g) q)
      (h : (groupLoop place).Makes bound g q site) : Makes ⟨keyword, .group, bound, p⟩ site
  | list {keyword : Token} {access : Access} {parent : Path} {outer bound : Nat}
      {p q : Progress} {place : ListPlace} {d : ListDraft} {site : Site}
      (hopen : openList access parent outer p = .ok (place, d) q)
      (h : (listLoop place).Makes bound d q site) :
      Makes ⟨keyword, .list access parent outer, bound, p⟩ site

/-! ## Failures go through -/

section Failing
variable [PatternCompiler]

/-- A turn at a keyword is its clause. -/
theorem Loop.turn_of_clause (htoken : token? p = .ok (some token) q)
    (hlead : Lead.ofToken loop.keywords token = .clause kind) :
    loop.turn bound state p = (loop.clause state kind).read bound q := by
  rw [turn, bind_at htoken]
  dsimp only
  rw [hlead]

theorem Loop.Makes.fails (h : loop.Makes bound state p site) (hfails : site.Fails failure) :
    ∃ q, loop.run bound state p = .error failure q := by
  induction h with
  | now htoken hlead hcall =>
    obtain ⟨q, hq⟩ := hfails
    refine ⟨q, bind_error.mpr (.inl ?_)⟩
    rw [turn_of_clause htoken hlead, hcall]
    exact bind_error.mpr (.inl hq)
  | later hturn h ih =>
    obtain ⟨q, hq⟩ := ih hfails
    exact ⟨q, bind_error.mpr (.inr ⟨_, _, hturn, hq⟩)⟩

/-- **A call fails like the calls that it makes.** -/
theorem Site.Makes.fails (h : site.Makes below) (hfails : below.Fails failure) :
    site.Fails failure := by
  cases h with
  | group hopen h =>
    obtain ⟨q, hq⟩ := h.fails hfails
    rw [← groupClauses_eq] at hq
    exact ⟨q, bind_error.mpr (.inr ⟨_, _, hopen, bind_error.mpr (.inl hq)⟩)⟩
  | list hopen h =>
    obtain ⟨q, hq⟩ := h.fails hfails
    rw [← listClauses_eq] at hq
    exact ⟨q, bind_error.mpr (.inr ⟨_, _, hopen, bind_error.mpr (.inl hq)⟩)⟩

/-- A call does not fail in two ways. -/
theorem Site.Fails.unique {failure' : Failure} (h : site.Fails failure)
    (h' : site.Fails failure') : failure = failure' := by
  obtain ⟨q, hq⟩ := h
  obtain ⟨q', hq'⟩ := h'
  cases hq.symm.trans hq'
  rfl

theorem Loop.Makes.bound_lt (h : loop.Makes bound state p site) : site.bound < bound := by
  induction h with
  | now => exact Nat.lt_succ_self _
  | later _ _ ih => exact ih.trans (Nat.lt_succ_self _)

theorem Site.Makes.bound_lt (h : site.Makes below) : below.bound < site.bound := by
  cases h with
  | group hopen h => exact h.bound_lt
  | list hopen h => exact h.bound_lt

end Failing

/-! ## Where calls are made -/

section Placing

variable {lines : List Token.Line}

/-- The call is that of its keyword, which stands in the lines right before the stream, and the
stream is still on its line. -/
structure Site.Placed (lines : List Token.Line) (site : Site) : Prop where
  keyword : site.keyword.text.toLower = site.call.construct.word
  behind : Stream.Behind lines site.keyword site.progress.stream
  line : site.keyword.line = site.progress.stream.line
  obeys : site.progress.stream.Obeys .exact

/-- The loop calls for constructs by their words. -/
def Loop.CallsByWord (loop : Loop κ σ) : Prop :=
  ∀ ⦃word : String⦄ ⦃state : σ⦄ ⦃kind : κ⦄ ⦃call : Call⦄ ⦃rest : call.Result → Reading (Turn σ)⦄,
    (word, kind) ∈ loop.keywords → loop.clause state kind = .calling call rest →
    word = call.construct.word

theorem listLoop_callsByWord (place : ListPlace) : (listLoop place).CallsByWord := by
  intro word d kind call rest hmem hcall
  cases kind <;> cases hcall <;>
    simpa [listLoop, listKeywords, Call.construct, Construct.word] using hmem

theorem groupLoop_callsByWord (place : GroupPlace) : (groupLoop place).CallsByWord := by
  intro word g kind call rest hmem hcall
  cases kind <;> cases hcall <;>
    simpa [groupLoop, groupKeywords, Call.construct, Construct.word] using hmem

theorem statementLoop_callsByWord : statementLoop.CallsByWord := by
  intro word u kind call rest hmem hcall
  cases kind <;> cases hcall <;>
    simpa [statementLoop, keywords, Call.construct, Construct.word] using hmem

theorem Loop.Makes.placed [PatternCompiler] (horderly : loop.Orderly) (hword : loop.CallsByWord)
    (h : loop.Makes bound state p site) (hreads : p.stream.Reads lines)
    (hobeys : p.stream.Obeys .exact) : site.Placed lines := by
  induction h with
  | now htoken hlead hcall =>
    -- The keyword has just been read, be it from its line or because it was handed back.
    have hbehind := hreads.next_behind
    have hnear := hobeys.next
    rw [token?_ok htoken] at hbehind hnear
    exact ⟨hword (mem_of_ofToken hlead) hcall, hbehind.2 _ rfl, hnear.2 _ rfl, hnear.1⟩
  | later hturn h ih =>
    exact ih (horderly.turn.keeps_ok (keptUp_reads lines) hturn ⟨hreads, nofun⟩).1
      (horderly.turn.keeps_ok (keptUp_obeys .exact) hturn ⟨hobeys, nofun⟩).1

/-- **The calls that a call makes are placed if it is placed.** -/
theorem Site.Makes.placed [PatternCompiler] (h : site.Makes below) (hplaced : site.Placed lines) :
    below.Placed lines := by
  have hreads := hplaced.behind.reads
  have hobeys := hplaced.obeys
  cases h with
  | @group _ _ _ _ place _ _ hopen h =>
    exact h.placed (groupLoop_orderly place) (groupLoop_callsByWord place)
      (orderly_openGroup.keeps_ok (keptUp_reads lines) hopen ⟨hreads, nofun⟩).1
      (orderly_openGroup.keeps_ok (keptUp_obeys .exact) hopen ⟨hobeys, nofun⟩).1
  | @list _ _ _ _ _ _ _ place _ _ hopen h =>
    exact h.placed (listLoop_orderly place) (listLoop_callsByWord place)
      (orderly_openList.keeps_ok (keptUp_reads lines) hopen ⟨hreads, nofun⟩).1
      (orderly_openList.keeps_ok (keptUp_obeys .exact) hopen ⟨hobeys, nofun⟩).1

end Placing
end DeviceSchema.Statement.Reading
