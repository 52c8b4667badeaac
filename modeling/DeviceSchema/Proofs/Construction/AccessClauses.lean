import DeviceSchema.Proofs.Construction.Calls

/-! # What bodies say about access

The access clauses of a source, and the elements and lists between them, are told here in the
order in which they stand (`AccessEntry`).  What stands in the body of an element, a list or a group
is found by following its loop from turn to turn (`ElementTells`, `ListTells`, `GroupTells`):
the keyword says what a turn is about, and an access is the word behind its keyword (`Says`).
Nothing is told of what the loops make of an access.

A loop that ends with a result has told its whole body (`elementLoop_tells` and so on).
-/
namespace DeviceSchema.Statement.Reading

/-- What stands in a body, as far as access goes. -/
inductive AccessEntry where
  | access (access : Access)
  /-- An element, and the accesses that it declares. -/
  | element (own : List Access)
  | list (body : List AccessEntry)

namespace AccessEntry

def access? : AccessEntry → Option Access
  | access a => some a
  | element _ | list _ => none

/-- The accesses that a body itself declares. -/
def declared (body : List AccessEntry) : List Access := body.filterMap access?

end AccessEntry

section Turns
variable {κ σ : Type} {loop : Loop κ σ} {bound : Nat} {state : σ} {p q : Progress} {kind : κ}

/-- The keyword of a clause comes next, and `q` is the progress behind it. -/
def Loop.Begins (loop : Loop κ σ) (p : Progress) (kind : κ) (q : Progress) : Prop :=
  ∃ token, token? p = .ok (some token) q ∧ Lead.ofToken loop.keywords token = .clause kind

/-- The loop takes no more turns. -/
inductive Loop.Stops [PatternCompiler] (loop : Loop κ σ) : Nat → σ → Progress → Prop
  | spent {state : σ} {p : Progress} : Stops loop 0 state p
  | done {bound : Nat} {state state' : σ} {p q : Progress}
      (hturn : loop.turn bound state p = .ok (.done state') q) : Stops loop (bound + 1) state p

/-- The word for an access comes next. -/
def Says (p : Progress) (access : Access) : Prop :=
  ∃ token q, token? p = .ok (some token) q ∧ Access.ofText token.text = .ok access

theorem Loop.begins_of_lookup {token : Token} (htoken : token? p = .ok (some token) q)
    (hkind : loop.keywords.lookup token.text.toLower = some kind) : loop.Begins p kind q := by
  refine ⟨token, htoken, ?_⟩
  rw [Lead.ofToken, hkind]

theorem Loop.Begins.turn [PatternCompiler] (h : loop.Begins p kind q) :
    loop.turn bound state p = (loop.clause state kind).read bound q := by
  obtain ⟨token, htoken, hlead⟩ := h
  exact Loop.turn_of_clause htoken hlead

/-- What a turn does that succeeds. -/
inductive Loop.Turned [PatternCompiler] (loop : Loop κ σ) (bound : Nat) (state : σ) (p : Progress) :
    Turn σ → Progress → Prop
  | sourceEnd {q : Progress} : Turned loop bound state p (.done state) q
  | clause {kind : κ} {turn : Turn σ} {q r : Progress} (hbegins : loop.Begins p kind q)
      (hread : (loop.clause state kind).read bound q = .ok turn r) :
      Turned loop bound state p turn r
  | comment {q : Progress} : Turned loop bound state p (.more state) q
  | other {token : Token} {state' : σ} {q r : Progress}
      (hother : loop.other token state q = .ok state' r) :
      Turned loop bound state p (.done state') r

theorem Loop.turned [PatternCompiler] {turn : Turn σ} (h : loop.turn bound state p = .ok turn q) :
    loop.Turned bound state p turn q := by
  obtain ⟨found, p₁, htoken, h⟩ := bind_ok.mp h
  cases found with
  | none =>
    obtain ⟨rfl, rfl⟩ := pure_ok.mp h
    exact .sourceEnd
  | some token =>
    dsimp only at h
    cases hlead : Lead.ofToken loop.keywords token with
    | clause kind =>
      rw [hlead] at h
      exact .clause ⟨token, htoken, hlead⟩ h
    | comment =>
      rw [hlead] at h
      obtain ⟨u, p₂, -, h⟩ := bind_ok.mp h
      obtain ⟨rfl, rfl⟩ := pure_ok.mp h
      exact .comment
    | other =>
      rw [hlead] at h
      obtain ⟨state', p₂, hother, h⟩ := bind_ok.mp h
      obtain ⟨rfl, rfl⟩ := pure_ok.mp h
      exact .other hother

theorem Loop.run_of_more [PatternCompiler] {state' : σ}
    (hturn : loop.turn bound state p = .ok (.more state') q) :
    loop.run (bound + 1) state p = loop.run bound state' q := bind_at hturn

theorem Loop.run_of_done [PatternCompiler] {state' : σ}
    (hturn : loop.turn bound state p = .ok (.done state') q) :
    loop.run (bound + 1) state p = .ok state' q := bind_at hturn

theorem Says.access_ok {access : Access} (h : Says p access) :
    ∃ q, Reading.access p = .ok access q := by
  obtain ⟨token, q, htoken, htext⟩ := h
  exact ⟨q, bind_ok.mpr ⟨_, p, rfl, bind_ok.mpr ⟨_, q, htoken, taking_ok.mpr ⟨htext, rfl⟩⟩⟩⟩

theorem says_of_access {access : Access} (h : Reading.access p = .ok access q) :
    Says p access := by
  obtain ⟨before, p₁, hline, h⟩ := bind_ok.mp h
  obtain ⟨found, p₂, htoken, h⟩ := bind_ok.mp h
  cases hline
  cases found with
  | none => cases h
  | some token => exact ⟨token, p₂, htoken, (taking_ok.mp h).1⟩

end Turns

/-! ## Elements -/

variable [PatternCompiler]

section Elements

/-- Reads what stands between the keyword of an element and its clauses: the line, the name and
the element so far. -/
def openElement : Reading (Nat × String × Element) := do
  let opened ← line
  let name ← name
  let label ← label?
  let help ← help?
  let info ← taking (Info.ofItem name label help)
  note (·.noteElementName name.length)
  return (opened, name, { info })

/-- Checks an element whose clauses have been read. -/
def closeElement (access : Access) (here : Path) (opened : Nat) (name : String) (e : Element) :
    Reading Element := do
  let e := { e with info := e.info.inheritAccess access }
  closing .element name opened e.check
  if e.type = some .refEnum then onSession (·.noteRefEnum here)
  tell ((Event.ofDebug "Element parsed").details
    [("element", name), ("type", (e.type.map ValueType.word).getD ""),
      ("line", toString opened)])
  return e

variable {bound : Nat} {access : Access} {parent : Path}

/-- An element is opened, its clauses are read and it is closed. -/
theorem element_eq : element bound access parent = openElement >>= fun (opened, name, e) =>
    (elementLoop opened (parent.child name)).run bound e >>=
      closeElement access (parent.child name) opened name := by
  simp only [element, openElement, bind_assoc, pure_bind, elementClauses_eq]
  rfl

/-- The turns of an element, from one progress to a later one, and the accesses that its
clauses declare on the way. -/
inductive ElementTells (opened : Nat) (here : Path) :
    Nat → Element → Progress → List Access → Nat → Element → Progress → Prop
  | start {bound : Nat} {e : Element} {p : Progress} :
      ElementTells opened here bound e p [] bound e p
  | silent {bound bound' : Nat} {e e₁ e' : Element} {p q r : Progress} {own : List Access}
      (hsilent : ∀ q, ¬ (elementLoop opened here).Begins p .access q)
      (hturn : (elementLoop opened here).turn bound e p = .ok (.more e₁) q)
      (h : ElementTells opened here bound e₁ q own bound' e' r) :
      ElementTells opened here (bound + 1) e p own bound' e' r
  | access {bound bound' : Nat} {e e₁ e' : Element} {p q q₁ r : Progress} {a : Access}
      {own : List Access} (hbegins : (elementLoop opened here).Begins p .access q)
      (hsaid : Says q a)
      (hturn : (elementLoop opened here).turn bound e p = .ok (.more e₁) q₁)
      (h : ElementTells opened here bound e₁ q₁ own bound' e' r) :
      ElementTells opened here (bound + 1) e p (a :: own) bound' e' r

/-- The element behind the keyword declares these accesses. -/
inductive ElementOutline (bound : Nat) (parent : Path) (p : Progress) (own : List Access) : Prop
  | intro {opened bound' : Nat} {name : String} {e e' : Element} {q r : Progress}
      (hopen : openElement p = .ok (opened, name, e) q)
      (hbody : ElementTells opened (parent.child name) bound e q own bound' e' r)
      (hstops : (elementLoop opened (parent.child name)).Stops bound' e' r) :
      ElementOutline bound parent p own

variable {opened : Nat} {here : Path} {e e' : Element} {p q : Progress}

theorem elementLoop_tells (h : (elementLoop opened here).run bound e p = .ok e' q) :
    ∃ own bound' e₁ r, ElementTells opened here bound e p own bound' e₁ r ∧
      (elementLoop opened here).Stops bound' e₁ r := by
  induction bound generalizing e p with
  | zero => exact ⟨[], 0, e, p, .start, .spent⟩
  | succ bound ih =>
    obtain ⟨turn, p₁, hturn, hrest⟩ := bind_ok.mp h
    cases turn with
    | done e₁ => exact ⟨[], bound + 1, e, p, .start, .done hturn⟩
    | more e₁ =>
      obtain ⟨own, bound', e₂, r, htells, hstops⟩ := ih hrest
      by_cases haccess : ∃ q, (elementLoop opened here).Begins p .access q
      · obtain ⟨q₁, hbegins⟩ := haccess
        have hclause := hturn
        rw [hbegins.turn] at hclause
        obtain ⟨e₃, p₂, hclause, -⟩ := bind_ok.mp hclause
        obtain ⟨a, p₃, ha, -⟩ := bind_ok.mp hclause
        exact ⟨a :: own, bound', e₂, r, .access hbegins (says_of_access ha) hturn htells, hstops⟩
      · exact ⟨own, bound', e₂, r, .silent (not_exists.mp haccess) hturn htells, hstops⟩

/-- **An element that is read has an outline.** -/
theorem element_outline (h : element bound access parent p = .ok e q) :
    ∃ own, ElementOutline bound parent p own := by
  rw [element_eq] at h
  obtain ⟨⟨opened, name, e₁⟩, p₁, hopen, h⟩ := bind_ok.mp h
  obtain ⟨e₂, p₂, hrun, -⟩ := bind_ok.mp h
  obtain ⟨own, bound', e', r, htells, hstops⟩ := elementLoop_tells hrun
  exact ⟨own, .intro hopen htells hstops⟩

end Elements

/-! ## Lists and groups -/

section Collections

/-- The clauses of a list that its outline tells. -/
def ListClause.told : List ListClause := [.access, .element, .list]

/-- The turns of lists, and what stands in their bodies on the way. -/
inductive ListTells : ListPlace → Nat → ListDraft → Progress → List AccessEntry →
    Nat → ListDraft → Progress → Prop
  | start {place : ListPlace} {bound : Nat} {d : ListDraft} {p : Progress} :
      ListTells place bound d p [] bound d p
  | silent {place : ListPlace} {bound bound' : Nat} {d d₁ d' : ListDraft} {p q r : Progress}
      {body : List AccessEntry}
      (hsilent : ∀ kind ∈ ListClause.told, ∀ q, ¬ (listLoop place).Begins p kind q)
      (hturn : (listLoop place).turn bound d p = .ok (.more d₁) q)
      (h : ListTells place bound d₁ q body bound' d' r) :
      ListTells place (bound + 1) d p body bound' d' r
  | access {place : ListPlace} {bound bound' : Nat} {d d₁ d' : ListDraft} {p q q₁ r : Progress}
      {a : Access} {body : List AccessEntry} (hbegins : (listLoop place).Begins p .access q)
      (hsaid : Says q a) (hturn : (listLoop place).turn bound d p = .ok (.more d₁) q₁)
      (h : ListTells place bound d₁ q₁ body bound' d' r) :
      ListTells place (bound + 1) d p (.access a :: body) bound' d' r
  | element {place : ListPlace} {bound bound' : Nat} {d d₁ d' : ListDraft} {p q q₁ r : Progress}
      {own : List Access} {body : List AccessEntry} (hbegins : (listLoop place).Begins p .element q)
      (hown : ElementOutline bound place.here q own)
      (hturn : (listLoop place).turn bound d p = .ok (.more d₁) q₁)
      (h : ListTells place bound d₁ q₁ body bound' d' r) :
      ListTells place (bound + 1) d p (.element own :: body) bound' d' r
  | list {place place₂ : ListPlace} {bound bound' bound₂ : Nat} {d d₁ d₂ d₃ d' : ListDraft}
      {p q q₁ q₂ q₃ r : Progress} {inner body : List AccessEntry}
      (hbegins : (listLoop place).Begins p .list q)
      (hopen : openList d.access place.here place.depth q = .ok (place₂, d₂) q₂)
      (hinner : ListTells place₂ bound d₂ q₂ inner bound₂ d₃ q₃)
      (hstops : (listLoop place₂).Stops bound₂ d₃ q₃)
      (hturn : (listLoop place).turn bound d p = .ok (.more d₁) q₁)
      (h : ListTells place bound d₁ q₁ body bound' d' r) :
      ListTells place (bound + 1) d p (.list inner :: body) bound' d' r

/-- The list behind the keyword has this body. -/
inductive ListOutline (bound : Nat) (access : Access) (parent : Path) (outer : Nat)
    (p : Progress) (body : List AccessEntry) : Prop
  | intro {place : ListPlace} {bound' : Nat} {d d' : ListDraft} {q r : Progress}
      (hopen : openList access parent outer p = .ok (place, d) q)
      (hbody : ListTells place bound d q body bound' d' r)
      (hstops : (listLoop place).Stops bound' d' r) : ListOutline bound access parent outer p body

/-- The turns of a group, and what stands in its body on the way. -/
inductive GroupTells (place : GroupPlace) :
    Nat → Group → Progress → List AccessEntry → Nat → Group → Progress → Prop
  | start {bound : Nat} {g : Group} {p : Progress} : GroupTells place bound g p [] bound g p
  | silent {bound bound' : Nat} {g g₁ g' : Group} {p q r : Progress} {body : List AccessEntry}
      (hsilent : ∀ kind ∈ [.element, .list], ∀ q, ¬ (groupLoop place).Begins p kind q)
      (hturn : (groupLoop place).turn bound g p = .ok (.more g₁) q)
      (h : GroupTells place bound g₁ q body bound' g' r) :
      GroupTells place (bound + 1) g p body bound' g' r
  | element {bound bound' : Nat} {g g₁ g' : Group} {p q q₁ r : Progress} {own : List Access}
      {body : List AccessEntry} (hbegins : (groupLoop place).Begins p .element q)
      (hown : ElementOutline bound place.here q own)
      (hturn : (groupLoop place).turn bound g p = .ok (.more g₁) q₁)
      (h : GroupTells place bound g₁ q₁ body bound' g' r) :
      GroupTells place (bound + 1) g p (.element own :: body) bound' g' r
  | list {bound bound' : Nat} {g g₁ g' : Group} {p q q₁ r : Progress} {inner body : List AccessEntry}
      (hbegins : (groupLoop place).Begins p .list q)
      (hinner : ListOutline bound place.here.table.defaultAccess place.here 0 q inner)
      (hturn : (groupLoop place).turn bound g p = .ok (.more g₁) q₁)
      (h : GroupTells place bound g₁ q₁ body bound' g' r) :
      GroupTells place (bound + 1) g p (.list inner :: body) bound' g' r

/-- The group behind the keyword is one of this table and has this body. -/
inductive GroupOutline (bound : Nat) (p : Progress) (kind : TableKind) (body : List AccessEntry) : Prop
  | intro {place : GroupPlace} {bound' : Nat} {g g' : Group} {q r : Progress}
      (hopen : openGroup p = .ok (place, g) q) (hkind : place.here.table = kind)
      (hbody : GroupTells place bound g q body bound' g' r)
      (hstops : (groupLoop place).Stops bound' g' r) : GroupOutline bound p kind body

variable {bound : Nat} {place : ListPlace} {d d' : ListDraft} {p q : Progress}

theorem listLoop_tells (h : (listLoop place).run bound d p = .ok d' q) :
    ∃ body bound' d₁ r, ListTells place bound d p body bound' d₁ r ∧
      (listLoop place).Stops bound' d₁ r := by
  -- The lists below have the same bound, so the hypothesis of the induction serves them as well.
  induction bound generalizing place d d' p q with
  | zero => exact ⟨[], 0, d, p, .start, .spent⟩
  | succ bound ih =>
    obtain ⟨turn, p₁, hturn, hrest⟩ := bind_ok.mp h
    cases turn with
    | done d₁ => exact ⟨[], bound + 1, d, p, .start, .done hturn⟩
    | more d₁ =>
      obtain ⟨body, bound', d₂, r, htells, hstops⟩ := ih hrest
      by_cases htold : ∃ kind ∈ ListClause.told, ∃ q, (listLoop place).Begins p kind q
      · obtain ⟨kind, hkind, q₁, hbegins⟩ := htold
        have hclause := hturn
        rw [hbegins.turn] at hclause
        simp only [ListClause.told, List.mem_cons, List.not_mem_nil, or_false] at hkind
        rcases hkind with rfl | rfl | rfl
        · obtain ⟨d₃, p₂, hclause, -⟩ := bind_ok.mp hclause
          obtain ⟨a, p₃, ha, -⟩ := bind_ok.mp hclause
          exact ⟨_, bound', d₂, r, .access hbegins (says_of_access ha) hturn htells, hstops⟩
        · obtain ⟨e, p₂, helement, -⟩ := bind_ok.mp hclause
          obtain ⟨own, hown⟩ := element_outline helement
          exact ⟨_, bound', d₂, r, .element hbegins hown hturn htells, hstops⟩
        · obtain ⟨c, p₂, hlist, -⟩ := bind_ok.mp hclause
          obtain ⟨⟨place₂, d₃⟩, p₃, hopen, hlist⟩ := bind_ok.mp hlist
          obtain ⟨d₄, p₄, hrun, -⟩ := bind_ok.mp hlist
          rw [listClauses_eq] at hrun
          obtain ⟨inner, bound₂, d₅, r₂, hinner, hends⟩ := ih hrun
          exact ⟨_, bound', d₂, r, .list hbegins hopen hinner hends hturn htells, hstops⟩
      · refine ⟨body, bound', d₂, r, .silent (fun kind hkind q hbegins => ?_) hturn htells, hstops⟩
        exact htold ⟨kind, hkind, q, hbegins⟩

/-- **A list that is read has an outline.** -/
theorem list_outline {access : Access} {parent : Path} {outer : Nat} {c : Collection}
    (h : list (listClauses bound) access parent outer p = .ok c q) :
    ∃ body, ListOutline bound access parent outer p body := by
  obtain ⟨⟨place, d⟩, p₁, hopen, h⟩ := bind_ok.mp h
  obtain ⟨d', p₂, hrun, -⟩ := bind_ok.mp h
  rw [listClauses_eq] at hrun
  obtain ⟨body, bound', d₁, r, htells, hstops⟩ := listLoop_tells hrun
  exact ⟨body, .intro hopen htells hstops⟩

theorem groupLoop_tells {place : GroupPlace} {g g' : Group}
    (h : (groupLoop place).run bound g p = .ok g' q) :
    ∃ body bound' g₁ r, GroupTells place bound g p body bound' g₁ r ∧
      (groupLoop place).Stops bound' g₁ r := by
  induction bound generalizing g p with
  | zero => exact ⟨[], 0, g, p, .start, .spent⟩
  | succ bound ih =>
    obtain ⟨turn, p₁, hturn, hrest⟩ := bind_ok.mp h
    cases turn with
    | done g₁ => exact ⟨[], bound + 1, g, p, .start, .done hturn⟩
    | more g₁ =>
      obtain ⟨body, bound', g₂, r, htells, hstops⟩ := ih hrest
      by_cases htold : ∃ kind ∈ [.element, .list], ∃ q, (groupLoop place).Begins p kind q
      · obtain ⟨kind, hkind, q₁, hbegins⟩ := htold
        have hclause := hturn
        rw [hbegins.turn] at hclause
        simp only [List.mem_cons, List.not_mem_nil, or_false] at hkind
        rcases hkind with rfl | rfl
        · obtain ⟨e, p₂, helement, -⟩ := bind_ok.mp hclause
          obtain ⟨own, hown⟩ := element_outline helement
          exact ⟨_, bound', g₂, r, .element hbegins hown hturn htells, hstops⟩
        · obtain ⟨c, p₂, hlist, -⟩ := bind_ok.mp hclause
          obtain ⟨inner, hinner⟩ := list_outline hlist
          exact ⟨_, bound', g₂, r, .list hbegins hinner hturn htells, hstops⟩
      · refine ⟨body, bound', g₂, r, .silent (fun kind hkind q hbegins => ?_) hturn htells, hstops⟩
        exact htold ⟨kind, hkind, q, hbegins⟩

/-- **A group that is read has an outline.** -/
theorem group_outline {u : Unit} (h : group bound p = .ok u q) :
    ∃ kind body, GroupOutline bound p kind body := by
  obtain ⟨⟨place, g⟩, p₁, hopen, h⟩ := bind_ok.mp h
  obtain ⟨g', p₂, hrun, -⟩ := bind_ok.mp h
  rw [groupClauses_eq] at hrun
  obtain ⟨body, bound', g₁, r, htells, hstops⟩ := groupLoop_tells hrun
  exact ⟨_, body, .intro hopen rfl htells hstops⟩

end Collections
end DeviceSchema.Statement.Reading
