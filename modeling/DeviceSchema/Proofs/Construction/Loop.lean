import DeviceSchema.Proofs.Construction.Discipline

/-! # The loops over clauses

Elements, conditions, lists, groups and whole sources are read in loops of one shape.  A
**turn** reads a token and asks what it leads to: a clause, a comment, or neither.  A clause
may be about a construct of its own, and then the loop **calls** for it (`Call`).

A `Loop` says what its clauses are and what is done at a token that begins none.  Each of
the five loops is one (`elementClauses_eq` and so on), so what holds of their turns can be
said and shown once for all of them.
-/
namespace DeviceSchema.Statement.Reading
variable [PatternCompiler]

/-- How a turn ends: there is another one, or the loop is done. -/
inductive Turn (σ : Type) where
  | more (state : σ)
  | done (state : σ)

/-- What follows a turn, given how a loop goes on. -/
def Turn.andThen {σ : Type} (next : σ → Reading σ) : Turn σ → Reading σ
  | .more state => next state
  | .done state => return state

/-- The reading of a construct behind its keyword. -/
inductive Call where
  | condition
  | group
  | element (access : Access) (parent : Path)
  | list (access : Access) (parent : Path) (outer : Nat)

namespace Call

/-- The construct that is called for; its word is the keyword. -/
def construct : Call → Construct
  | condition => .condition
  | group => .group
  | element _ _ => .element
  | list _ _ _ => .list

/-- What a call gives. -/
abbrev Result : Call → Type
  | condition | group => Unit
  | element _ _ => Element
  | list _ _ _ => Collection

/-- What a call comes to, if loops in it take at most `bound` turns. -/
def run (bound : Nat) : (call : Call) → Reading call.Result
  | condition => Reading.condition bound
  | group => Reading.group bound
  | element access parent => Reading.element bound access parent
  | list access parent outer => Reading.list (listClauses bound) access parent outer

end Call

/-- What a clause comes to, behind its keyword. -/
inductive Clause (σ : Type) where
  | plain (turn : Reading (Turn σ))
  | calling (call : Call) (rest : call.Result → Reading (Turn σ))

def Clause.read {σ : Type} (bound : Nat) : Clause σ → Reading (Turn σ)
  | plain turn => turn
  | calling call rest => call.run bound >>= rest

/-- A loop over clauses, which carries a state of type `σ`. -/
structure Loop (κ σ : Type) where
  keywords : List (String × κ)
  clause : σ → κ → Clause σ
  /-- What is done at a token that begins no clause.  It ends the loop. -/
  other : Token → σ → Reading σ

namespace Loop
variable {κ σ : Type}

/-- One turn of a loop. -/
def turn (loop : Loop κ σ) (bound : Nat) (state : σ) : Reading (Turn σ) := do
  let some token ← token? | return .done state
  match Lead.ofToken loop.keywords token with
  | .clause kind => (loop.clause state kind).read bound
  | .comment => do
    dropLine
    return .more state
  | .other => return .done (← loop.other token state)

/-- At most `bound` turns of a loop. -/
def run (loop : Loop κ σ) : Nat → σ → Reading σ
  | 0, state => return state
  | bound + 1, state => loop.turn bound state >>= Turn.andThen (loop.run bound)

end Loop

/-! ## The five loops -/

def elementLoop (opened : Nat) (here : Path) : Loop ElementClause Element where
  keywords := elementKeywords
  clause e kind := .plain do return .more (← elementClause opened here e kind)
  other token e := do
    handBack token
    return e

def conditionLoop : Loop ConditionClause ConditionDraft where
  keywords := conditionKeywords
  clause d kind := .plain do return .more (← conditionClause d kind)
  other token d := do
    handBack token
    return d

def listLoop (place : ListPlace) : Loop ListClause ListDraft where
  keywords := listKeywords
  clause d
    | .capacity => .plain do
      let capacity ← capacity .list place.opened
      let head := d.collection.head.declareCapacity capacity
      return .more { d with collection := { d.collection with head } }
    | .keys => .plain do
      let keys ← keys .list place.opened
      let head := d.collection.head.declareKeys keys
      return .more { d with collection := { d.collection with head } }
    | .access => .plain do return .more (← accessClause d)
    | .element => .calling (.element d.access place.here) fun e => do
      let collection ← adding d.collection (.element e)
      return .more { d with collection }
    | .list => .calling (.list d.access place.here place.depth) fun c => do
      let collection ← adding d.collection (.ofCollection c)
      return .more { d with collection }
    | .condition => .plain do
      let collection ← attaching d.collection place.here
      return .more { d with collection }
    | .stop => .plain (return .done d)
  other token _ := failWithin .list place.opened (.unknownInList token.text)

def groupLoop (place : GroupPlace) : Loop GroupClause Group where
  keywords := groupKeywords
  clause g
    | .capacity => .plain do
      let capacity ← capacity .group place.opened
      let head := g.body.head.declareCapacity capacity
      return .more { g with body := { g.body with head } }
    | .keys => .plain do
      let keys ← keys .group place.opened
      let head := g.body.head.declareKeys keys
      return .more { g with body := { g.body with head } }
    | .condition => .plain do
      let body ← attaching g.body place.here
      return .more { g with body }
    | .element => .calling (.element place.here.table.defaultAccess place.here) fun e => do
      let body ← adding g.body (.element e)
      return .more { g with body }
    | .list => .calling (.list place.here.table.defaultAccess place.here 0) fun c => do
      let body ← adding g.body (.ofCollection c)
      return .more { g with body }
    | .error => .plain do return .more (← errorClause g)
    | .stop => .plain (return .done g)
  other token g := do
    handBack token
    return g

def statementLoop : Loop Kind Unit where
  keywords := keywords
  clause _
    | .globalError => .plain do
      globalError
      return .more ()
    | .condition => .calling .condition fun _ => return .more ()
    | .group => .calling .group fun _ => return .more ()
  other token _ := fail (.unknownKeyword token.text)

section Loops
variable {κ σ : Type} {bound : Nat}

/-- A turn and what follows it, as loops over clauses are written. -/
theorem Loop.turn_andThen (loop : Loop κ σ) (state : σ) (next : σ → Reading σ) :
    loop.turn bound state >>= Turn.andThen next = token? >>= fun
      | none => return state
      | some token =>
        match Lead.ofToken loop.keywords token with
        | .clause kind => (loop.clause state kind).read bound >>= Turn.andThen next
        | .comment => dropLine >>= fun _ => next state
        | .other => loop.other token state := by
  rw [turn, bind_assoc]
  refine bind_congr fun found => ?_
  cases found with
  | none => rfl
  | some token =>
    dsimp only
    cases Lead.ofToken loop.keywords token with
    | clause kind => rfl
    | comment => simp only [bind_assoc, pure_bind, Turn.andThen]
    | other => simp only [bind_assoc, pure_bind, Turn.andThen, bind_pure]

/-- What goes on by turns is a loop. -/
theorem Loop.eq_run {f : Nat → σ → Reading σ} (loop : Loop κ σ)
    (hzero : ∀ state, f 0 state = pure state)
    (hsucc : ∀ bound state, f (bound + 1) state =
      loop.turn bound state >>= Turn.andThen (f bound)) (state : σ) :
    f bound state = loop.run bound state := by
  induction bound generalizing state with
  | zero => exact hzero state
  | succ bound ih => rw [hsucc, run, funext ih]

theorem elementClauses_eq {opened : Nat} {here : Path} (e : Element) :
    elementClauses opened here bound e = (elementLoop opened here).run bound e := by
  refine Loop.eq_run _ (fun _ => rfl) (fun bound e => ?_) e
  have hkeywords : (elementLoop opened here).keywords = elementKeywords := rfl
  rw [elementClauses, Loop.turn_andThen, hkeywords]
  refine bind_congr fun found => ?_
  cases found with
  | none => rfl
  | some token =>
    dsimp only
    cases Lead.ofToken elementKeywords token with
    | clause kind =>
      simp only [elementLoop, Clause.read, bind_assoc, pure_bind, Turn.andThen]
    | comment | other => rfl

theorem conditionClauses_eq (d : ConditionDraft) :
    conditionClauses bound d = conditionLoop.run bound d := by
  refine Loop.eq_run _ (fun _ => rfl) (fun bound d => ?_) d
  have hkeywords : conditionLoop.keywords = conditionKeywords := rfl
  rw [conditionClauses, Loop.turn_andThen, hkeywords]
  refine bind_congr fun found => ?_
  cases found with
  | none => rfl
  | some token =>
    dsimp only
    cases Lead.ofToken conditionKeywords token with
    | clause kind =>
      simp only [conditionLoop, Clause.read, bind_assoc, pure_bind, Turn.andThen]
    | comment | other => rfl

theorem listClauses_eq {place : ListPlace} (d : ListDraft) :
    listClauses bound place d = (listLoop place).run bound d := by
  refine Loop.eq_run (f := fun bound => listClauses bound place) _ (fun _ => rfl)
    (fun bound d => ?_) d
  have hkeywords : (listLoop place).keywords = listKeywords := rfl
  rw [listClauses, Loop.turn_andThen, hkeywords]
  refine bind_congr fun found => ?_
  cases found with
  | none => rfl
  | some token =>
    dsimp only
    cases Lead.ofToken listKeywords token with
    | clause kind =>
      cases kind <;>
        simp only [listLoop, Clause.read, Call.run, bind_assoc, pure_bind, Turn.andThen]
    | comment | other => rfl

theorem groupClauses_eq {place : GroupPlace} (g : Group) :
    groupClauses place bound g = (groupLoop place).run bound g := by
  refine Loop.eq_run _ (fun _ => rfl) (fun bound g => ?_) g
  have hkeywords : (groupLoop place).keywords = groupKeywords := rfl
  rw [groupClauses, Loop.turn_andThen, hkeywords]
  refine bind_congr fun found => ?_
  cases found with
  | none => rfl
  | some token =>
    dsimp only
    cases Lead.ofToken groupKeywords token with
    | clause kind =>
      cases kind <;>
        simp only [groupLoop, Clause.read, Call.run, bind_assoc, pure_bind, Turn.andThen]
    | comment | other => rfl

theorem statements_eq : statements bound = statementLoop.run bound () := by
  refine Loop.eq_run (f := fun bound _ => statements bound) _ (fun _ => rfl)
    (fun bound _ => ?_) ()
  have hkeywords : statementLoop.keywords = keywords := rfl
  rw [statements, Loop.turn_andThen, hkeywords]
  refine bind_congr fun found => ?_
  cases found with
  | none => rfl
  | some token =>
    dsimp only
    cases Lead.ofToken keywords token with
    | clause kind =>
      cases kind <;>
        simp only [statementLoop, Clause.read, Call.run, statement, bind_assoc, pure_bind,
          Turn.andThen]
    | comment | other => rfl

end Loops

/-! ## The loops are orderly -/

section Orderly

/-- A loop that uses the stream as intended, and whose keywords are words. -/
structure Loop.Orderly {κ σ : Type} (loop : Loop κ σ) : Prop where
  keywords : loop.keywords.lookup "" = none
  clause (bound : Nat) (state : σ) (kind : κ) {held : Option Token} :
    Reading.Orderly held ((loop.clause state kind).read bound)
  other (token : Token) (state : σ) : Reading.Orderly (some token) (loop.other token state)

theorem Loop.Orderly.turn {κ σ : Type} {loop : Loop κ σ} (h : loop.Orderly) {bound : Nat}
    {state : σ} {held : Option Token} : Reading.Orderly held (loop.turn bound state) := by
  refine orderly_token still_pure fun token => ?_
  dsimp only
  split
  · exact h.clause bound state _
  · exact (Orderly.dropLine token).bind fun _ => orderly_pure
  · exact (h.other token state).bind fun _ => orderly_pure

theorem Call.orderly (call : Call) {bound : Nat} {held : Option Token} :
    Reading.Orderly held (call.run bound) := by
  cases call with
  | condition => exact orderly_condition
  | group => exact orderly_group
  | element access parent => exact orderly_element
  | list access parent outer => exact orderly_list fun _ _ => orderly_listClauses

theorem orderly_calling {σ : Type} {bound : Nat} {held : Option Token} {call : Call}
    {rest : call.Result → Reading (Turn σ)} (h : ∀ result, Orderly none (rest result)) :
    Orderly held ((Clause.calling call rest).read bound) :=
  call.orderly.bind h

theorem elementLoop_orderly (opened : Nat) (here : Path) : (elementLoop opened here).Orderly where
  keywords := rfl
  clause _ _ _ := orderly_elementClause.bind fun _ => orderly_pure
  other token _ := (Orderly.handBack token).bind fun _ => orderly_pure

theorem conditionLoop_orderly : conditionLoop.Orderly where
  keywords := rfl
  clause _ _ _ := orderly_conditionClause.bind fun _ => orderly_pure
  other token _ := (Orderly.handBack token).bind fun _ => orderly_pure

theorem listLoop_orderly (place : ListPlace) : (listLoop place).Orderly where
  keywords := rfl
  clause bound d kind := by
    cases kind with
    | capacity => exact orderly_capacity.bind fun _ => orderly_pure
    | keys => exact orderly_keys.bind fun _ => orderly_pure
    | access => exact orderly_accessClause.bind fun _ => orderly_pure
    | element | list => exact orderly_calling fun _ => orderly_adding.bind fun _ => orderly_pure
    | condition => exact orderly_attaching.bind fun _ => orderly_pure
    | stop => exact orderly_pure
  other _ _ := orderly_failWithin nofun

theorem groupLoop_orderly (place : GroupPlace) : (groupLoop place).Orderly where
  keywords := rfl
  clause bound g kind := by
    cases kind with
    | capacity => exact orderly_capacity.bind fun _ => orderly_pure
    | keys => exact orderly_keys.bind fun _ => orderly_pure
    | condition => exact orderly_attaching.bind fun _ => orderly_pure
    | element | list => exact orderly_calling fun _ => orderly_adding.bind fun _ => orderly_pure
    | error => exact orderly_errorClause.bind fun _ => orderly_pure
    | stop => exact orderly_pure
  other token _ := (Orderly.handBack token).bind fun _ => orderly_pure

theorem statementLoop_orderly : statementLoop.Orderly where
  keywords := rfl
  clause bound _ kind := by
    cases kind with
    | globalError => exact orderly_globalError.bind fun _ => orderly_pure
    | condition | group => exact orderly_calling fun _ => orderly_pure
  other _ _ := orderly_fail nofun

end Orderly
end DeviceSchema.Statement.Reading
