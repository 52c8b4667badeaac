import DeviceSchema.Proofs.Construction.Discipline
import DeviceSchema.Text.Pattern

/-! # Where lists and sources end

The clauses of a list are read in a loop with a bound.  The bound is no limit: every clause
takes a token, and no token of it is read twice, so a bound above the rank of the stream is
never reached.  What is read is then described without the loop (`BodyRead`): clauses with
comments between them, up to the keyword `end` or to the end of the source.

A list is read if and only if it can be opened, its body is read in this way and it can be
closed (`list_ok_iff`).  Nothing asks which of the two ends it was, so a source may break off
inside a list and is still a description (`unclosed_small`).

The loop over the statements of a source ends with the source, and only there
(`read_to_the_end`).
-/
namespace DeviceSchema.Statement
namespace Reading
open Token (Stream)

/-- What a clause of a list comes to, after its keyword. -/
def listClause [PatternCompiler] (bound : Nat) (place : ListPlace) (d : ListDraft) :
    ListClause → Reading ListDraft
  | .capacity => do
    let capacity ← capacity .list place.opened
    return { d with collection := { d.collection with
      head := d.collection.head.declareCapacity capacity } }
  | .keys => do
    let keys ← keys .list place.opened
    return { d with collection := { d.collection with head := d.collection.head.declareKeys keys } }
  | .access => accessClause d
  | .element => do
    let e ← element bound d.access place.here
    let collection ← adding d.collection (.element e)
    return { d with collection }
  | .list => do
    let c ← list (listClauses bound) d.access place.here place.depth
    let collection ← adding d.collection (.ofCollection c)
    return { d with collection }
  | .condition => do
    let collection ← attaching d.collection place.here
    return { d with collection }
  | .stop => return d

/-- The body of a list is read, as far as the token `last` or, if there is none, to the end
of the source. -/
inductive BodyRead [PatternCompiler] (place : ListPlace) :
    Nat → ListDraft → Progress → Option Token → ListDraft → Progress → Prop
  | sourceEnd {bound : Nat} {d : ListDraft} {p q : Progress} (htoken : token? p = .ok none q) :
      BodyRead place (bound + 1) d p none d q
  | stop {bound : Nat} {d : ListDraft} {p q : Progress} {token : Token}
      (htoken : token? p = .ok (some token) q)
      (hlead : Lead.ofToken listKeywords token = .clause .stop) :
      BodyRead place (bound + 1) d p (some token) d q
  | comment {bound : Nat} {d d' : ListDraft} {p q r z : Progress} {token : Token}
      {last : Option Token} (htoken : token? p = .ok (some token) q)
      (hlead : Lead.ofToken listKeywords token = .comment) (hdrop : dropLine q = .ok () r)
      (h : BodyRead place bound d r last d' z) : BodyRead place (bound + 1) d p last d' z
  | clause {bound : Nat} {d d₁ d' : ListDraft} {p q r z : Progress} {token : Token}
      {kind : ListClause} {last : Option Token} (htoken : token? p = .ok (some token) q)
      (hlead : Lead.ofToken listKeywords token = .clause kind) (hkind : kind ≠ .stop)
      (hclause : listClause bound place d kind q = .ok d₁ r)
      (h : BodyRead place bound d₁ r last d' z) : BodyRead place (bound + 1) d p last d' z

section Bodies
variable {bound : Nat} {place : ListPlace} {d d' : ListDraft} {p q : Progress}
variable {last : Option Token} {token : Token}

/-- The loop goes on behind every clause but the end. -/
theorem listClauses_clause [PatternCompiler] {kind : ListClause}
    (hlead : Lead.ofToken listKeywords token = .clause kind) (hkind : kind ≠ .stop)
    (htoken : token? p = .ok (some token) q) :
    listClauses (bound + 1) place d p =
      (listClause bound place d kind >>= listClauses bound place) q := by
  rw [listClauses]
  show EStateM.bind token? _ p = _
  unfold EStateM.bind
  rw [htoken]
  dsimp only
  rw [hlead]
  cases kind with
  | stop => exact absurd rfl hkind
  | _ => simp only [listClause, bind_assoc, pure_bind]

theorem orderly_listClause [PatternCompiler] {held : Option Token} {kind : ListClause} :
    Orderly held (listClause bound place d kind) := by
  cases kind with
  | capacity => exact orderly_capacity.bind fun _ => orderly_pure
  | keys => exact orderly_keys.bind fun _ => orderly_pure
  | access => exact orderly_accessClause
  | element => exact orderly_element.bind fun _ => orderly_adding.bind fun _ => orderly_pure
  | list =>
    exact (orderly_list fun _ _ => orderly_listClauses).bind fun _ => orderly_adding.bind
      fun _ => orderly_pure
  | condition => exact orderly_attaching.bind fun _ => orderly_pure
  | stop => exact orderly_pure

/-- A body that was read is what the loop gives. -/
theorem BodyRead.ok [PatternCompiler] (h : BodyRead place bound d p last d' q) :
    listClauses bound place d p = .ok d' q := by
  induction h with
  | sourceEnd htoken => exact bind_ok.mpr ⟨none, _, htoken, rfl⟩
  | stop htoken hlead =>
    refine bind_ok.mpr ⟨some _, _, htoken, ?_⟩
    dsimp only
    rw [hlead]
    rfl
  | comment htoken hlead hdrop h ih =>
    refine bind_ok.mpr ⟨some _, _, htoken, ?_⟩
    dsimp only
    rw [hlead]
    exact bind_ok.mpr ⟨(), _, hdrop, ih⟩
  | clause htoken hlead hkind hclause h ih =>
    rw [listClauses_clause hlead hkind htoken]
    exact bind_ok.mpr ⟨_, _, hclause, ih⟩

theorem token?_ok {found : Option Token} (h : token? p = .ok found q) :
    p.stream.next = (found, q.stream) := by
  cases h
  rfl

/-- A token that is not handed back makes the rank smaller. -/
theorem rank_token_lt (htoken : token? p = .ok (some token) q) :
    q.stream.rank < p.stream.rank := Stream.rank_next_lt (token?_ok htoken)

theorem rank_dropLine_ok {u : Unit} (hdrop : dropLine p = .ok u q) :
    q.stream.rank ≤ p.stream.rank := by
  cases hdrop
  exact Stream.rank_dropLine_le _

/-- An orderly step with nothing on loan. -/
theorem Orderly.rank_ok {α : Type} {m : Reading α} {a : α} (h : Orderly none m)
    (hm : m p = .ok a q) : q.stream.rank ≤ p.stream.rank :=
  h.rank_le hm (Nat.le_refl _) fun t ht => by cases ht

/-- **With a bound above the rank, the loop reads the body of a list and nothing else.** -/
theorem listClauses_ok_iff [PatternCompiler] (hrank : p.stream.rank < bound) :
    listClauses bound place d p = .ok d' q ↔ ∃ last, BodyRead place bound d p last d' q := by
  refine ⟨fun h => ?_, fun ⟨last, h⟩ => h.ok⟩
  induction bound generalizing d p with
  | zero => exact absurd hrank (Nat.not_lt_zero _)
  | succ bound ih =>
    obtain ⟨found, p₁, htoken, hrest⟩ := bind_ok.mp h
    cases found with
    | none =>
      obtain ⟨rfl, rfl⟩ := pure_ok.mp hrest
      exact ⟨none, .sourceEnd htoken⟩
    | some token =>
      have hlt := rank_token_lt htoken
      dsimp only at hrest
      cases hlead : Lead.ofToken listKeywords token with
      | clause kind =>
        by_cases hkind : kind = .stop
        · subst hkind
          rw [hlead] at hrest
          obtain ⟨rfl, rfl⟩ := pure_ok.mp hrest
          exact ⟨some token, .stop htoken hlead⟩
        · rw [listClauses_clause hlead hkind htoken] at h
          obtain ⟨d₁, p₂, hclause, h⟩ := bind_ok.mp h
          have hle := orderly_listClause.rank_ok hclause
          obtain ⟨last, hbody⟩ := ih (by omega) h
          exact ⟨last, .clause htoken hlead hkind hclause hbody⟩
      | comment =>
        rw [hlead] at hrest
        obtain ⟨u, p₂, hdrop, h⟩ := bind_ok.mp hrest
        have hle := rank_dropLine_ok hdrop
        obtain ⟨last, hbody⟩ := ih (by omega) h
        exact ⟨last, .comment htoken hlead hdrop hbody⟩
      | other =>
        rw [hlead] at hrest
        cases hrest

/-- A token begins the clause that its keyword stands for. -/
theorem mem_of_ofToken {κ : Type} {keywords : List (String × κ)} {kind : κ}
    (h : Lead.ofToken keywords token = .clause kind) :
    (token.text.toLower, kind) ∈ keywords := by
  unfold Lead.ofToken at h
  split at h
  · rename_i found hfound
    cases h
    obtain ⟨before, after, hsplit, -⟩ := List.lookup_eq_some_iff.mp hfound
    rw [hsplit]
    exact List.mem_append_right _ List.mem_cons_self
  · split at h <;> cases h

/-- Only the keyword `end`, in any case, ends a list. -/
theorem toLower_of_stop (h : Lead.ofToken listKeywords token = .clause .stop) :
    token.text.toLower = "end" := by
  have hmem := mem_of_ofToken h
  simpa [listKeywords] using hmem

/-- The token that ends a body is the keyword, and without one no token is left. -/
theorem BodyRead.ends [PatternCompiler] (h : BodyRead place bound d p last d' q) :
    (∀ token ∈ last, token.text.toLower = "end") ∧ (last = none → q.stream.tokens = []) := by
  induction h with
  | @sourceEnd bound d p q htoken =>
    constructor
    · rintro token ⟨⟩
    · exact fun _ => Stream.tokens_of_next_none (token?_ok htoken)
  | @stop bound d p q token htoken hlead =>
    constructor
    · rintro token ⟨⟩
      exact toLower_of_stop hlead
    · rintro ⟨⟩
  | comment htoken hlead hdrop h ih => exact ih
  | clause htoken hlead hkind hclause h ih => exact ih

end Bodies

section Lists
variable {bound outer : Nat} {access : Access} {parent : Path} {p q : Progress} {c : Collection}

/-- **A list is read if and only if it is opened, its body is read to the keyword `end` or to
the end of the source, and it is closed.** -/
theorem list_ok_iff [PatternCompiler] (hrank : p.stream.rank < bound) :
    list (listClauses bound) access parent outer p = .ok c q ↔
      ∃ place d p₁ last d' p₂, openList access parent outer p = .ok (place, d) p₁ ∧
        BodyRead place bound d p₁ last d' p₂ ∧
        (∀ token ∈ last, token.text.toLower = "end") ∧ (last = none → p₂.stream.tokens = []) ∧
        closeList place d' p₂ = .ok c q := by
  constructor
  · intro h
    obtain ⟨⟨place, d⟩, p₁, hopen, h⟩ := bind_ok.mp h
    obtain ⟨d', p₂, hclauses, hclose⟩ := bind_ok.mp h
    have hrank₁ : p₁.stream.rank < bound := (orderly_openList.rank_ok hopen).trans_lt hrank
    obtain ⟨last, hbody⟩ := (listClauses_ok_iff hrank₁).mp hclauses
    obtain ⟨hlast, hleft⟩ := hbody.ends
    exact ⟨place, d, p₁, last, d', p₂, hopen, hbody, hlast, hleft, hclose⟩
  · rintro ⟨place, d, p₁, last, d', p₂, hopen, hbody, -, -, hclose⟩
    exact bind_ok.mpr ⟨(place, d), p₁, hopen, bind_ok.mpr ⟨d', p₂, hbody.ok, hclose⟩⟩

/-- A source that breaks off inside a list. -/
def unclosedSource : String := "group setting g \"G\"\nlist l \"L\"\nelement e \"E\" type on_off"

/-- The list of this source, behind its keyword. -/
def unclosedList : Progress where
  stream := ⟨none, (Stream.numberedLines "l \"L\"\nelement e \"E\" type on_off"), 0, none⟩
  session := .ofLimits {}

attribute [local instance] Text.Pattern.compiler in
theorem list_ok_iff_small : ∃ c q,
    list (listClauses 30) .readWrite ⟨.setting, ["g"]⟩ 0 unclosedList = .ok c q ∧
      ∃ place d p₁ last d' p₂,
        openList .readWrite ⟨.setting, ["g"]⟩ 0 unclosedList = .ok (place, d) p₁ ∧
        BodyRead place 30 d p₁ last d' p₂ ∧
        (∀ token ∈ last, token.text.toLower = "end") ∧ (last = none → p₂.stream.tokens = []) ∧
        closeList place d' p₂ = .ok c q := by
  have hrank : unclosedList.stream.rank < 30 := by decide +kernel
  have hread : (match list (listClauses 30) .readWrite ⟨.setting, ["g"]⟩ 0 unclosedList with
      | .ok _ _ => true
      | .error _ _ => false) = true := by decide +kernel
  cases hlist : list (listClauses 30) .readWrite ⟨.setting, ["g"]⟩ 0 unclosedList with
  | ok c q => exact ⟨c, q, rfl, (list_ok_iff hrank).mp hlist⟩
  | error failure q =>
    rw [hlist] at hread
    cases hread

attribute [local instance] Text.Pattern.compiler in
/-- **A source without the keyword `end` can have a list and be read without failure.** -/
theorem unclosed_small : ∃ stream, Stream.ofSource unclosedSource = .ok stream ∧
    (∀ token ∈ stream.drain.1, token.text.toLower ≠ "end") ∧
    (read stream (.ofLimits {})).result = .ok () ∧
    (((read stream (.ofLimits {})).progress.session.resolve ⟨.setting, ["g", "l"]⟩).bind
      Node.collection?).isSome = true := by
  refine ⟨⟨none, Stream.numberedLines unclosedSource, 0, none⟩, rfl, ?_, ?_, ?_⟩
  · decide +kernel
  · exact except_ok_of_isSome (by decide +kernel)
  · decide +kernel

end Lists

section Sources
variable {bound : Nat} {p q : Progress}

/-- The last that happens to a stream is that it is asked for a token and has none. -/
theorem statements_to_the_end [PatternCompiler] {u : Unit} (hrank : p.stream.rank < bound)
    (h : statements bound p = .ok u q) : ∃ s : Stream, s.next = (none, q.stream) := by
  induction bound generalizing p with
  | zero => exact absurd hrank (Nat.not_lt_zero _)
  | succ bound ih =>
    obtain ⟨found, p₁, htoken, h⟩ := bind_ok.mp h
    cases found with
    | none =>
      obtain ⟨-, rfl⟩ := pure_ok.mp h
      exact ⟨p.stream, token?_ok htoken⟩
    | some token =>
      have hlt := rank_token_lt htoken
      dsimp only at h
      cases hlead : Lead.ofToken keywords token with
      | clause kind =>
        rw [hlead] at h
        obtain ⟨u₂, p₂, hstatement, h⟩ := bind_ok.mp h
        have hle := orderly_statement.rank_ok hstatement
        exact ih (by omega) h
      | comment =>
        rw [hlead] at h
        obtain ⟨u₂, p₂, hdrop, h⟩ := bind_ok.mp h
        have hle := rank_dropLine_ok hdrop
        exact ih (by omega) h
      | other =>
        rw [hlead] at h
        cases h

end Sources
end Reading

/-- A source that is read without failure is read until there is no token. -/
theorem exists_next_none [PatternCompiler] {stream : Token.Stream} {s : Session}
    (hback : stream.handedBack = none) (h : (read stream s).result = .ok ()) :
    ∃ before : Token.Stream, before.next = (none, (read stream s).progress.stream) := by
  have hrank : stream.rank < stream.unread + 1 := by
    rw [Token.Stream.rank_eq_unread hback]
    exact Nat.lt_succ_self _
  unfold read at h ⊢
  cases hread : readAll ⟨stream, s, #[.ofDebug "Starting syntax analysis"]⟩ with
  | ok u p =>
    obtain ⟨before, hnext⟩ := Reading.statements_to_the_end (p := ⟨stream, s, _⟩) hrank hread
    exact ⟨before, hnext⟩
  | error failure p =>
    rw [hread] at h
    cases h

/-- **A source that is read without failure is read to its end.** -/
theorem read_to_the_end [PatternCompiler] {stream : Token.Stream} {s : Session}
    (hback : stream.handedBack = none)
    (h : (read stream s).result = .ok ()) : (read stream s).progress.stream.tokens = [] := by
  obtain ⟨before, hnext⟩ := exists_next_none hback h
  exact Token.Stream.tokens_of_next_none hnext

end DeviceSchema.Statement
