import DeviceSchema.Proofs.Construction.AccessClauses
import DeviceSchema.Proofs.Construction.Attribution
import DeviceSchema.Text.Pattern

/-! # Access is lexically scoped

An access is **in force** at every place of a group: the default of the table at its beginning,
and in a list, behind an access clause of it, the access of this clause.  The end of the list
ends this.  `Scoped` says so of the outline of a body, and also what is stored: an element and a
list have the access that they declare, and else that which is in force where they stand.

Loops carry an access with them.  What they make of each turn is what `Scoped` says
(`ListTells.scoped`), and so a group that is read is registered with items that are scoped from
the default of its table.  A second access clause of one list or element is a failure of the
source as a whole.
-/
namespace DeviceSchema.Statement.Reading
open Token (Stream)

/-- What is stored of a body, if `access` is in force at its beginning.  Each body declares at
most one access. -/
inductive Scoped : Access → List AccessEntry → List Item → Prop
  | done {access : Access} : Scoped access [] []
  | access {access changed : Access} {body : List AccessEntry} {items : List Item}
      (h : Scoped changed body items) : Scoped access (.access changed :: body) items
  | element {access : Access} {own : Option Access} {e : Element} {body : List AccessEntry}
      {items : List Item} (hstored : e.info.access = some (own.getD access))
      (h : Scoped access body items) :
      Scoped access (.element own.toList :: body) (.element e :: items)
  | list {access : Access} {own : Option Access} {c : Collection} {inner body : List AccessEntry}
      {items : List Item} (hown : AccessEntry.declared inner = own.toList)
      (hstored : c.head.info.access = some (own.getD access))
      (hinner : Scoped access inner c.items) (h : Scoped access body items) :
      Scoped access (.list inner :: body) (.ofCollection c :: items)

/-! ## What one element stores -/

section Elements
variable {bound bound' opened : Nat} {here parent : Path} {e e' : Element} {p q r : Progress}
variable {own : List Access} {access : Access}

/-- A clause that reads a value and declares it leaves what the element says of itself. -/
theorem detail_info {α : Type} {m : Reading α} {declare : α → Changing Element Unit}
    (hd : ∀ {a e'}, declare a e = .ok () e' → e.Alike e')
    (h : (m >>= fun a => changing (declare a e)) p = .ok e' q) : e'.info = e.info := by
  obtain ⟨a, p₁, -, h⟩ := bind_ok.mp h
  exact (hd (changing_ok.mp h).1).info

/-- Only the access clause changes the access. -/
theorem elementClause_access [PatternCompiler] {kind : ElementClause} (hkind : kind ≠ .access)
    (h : elementClause opened here e kind p = .ok e' q) : e'.info.access = e.info.access := by
  cases kind with
  | access => exact absurd rfl hkind
  | type =>
    obtain ⟨found, p₁, -, h⟩ := bind_ok.mp h
    cases found with
    | none => cases h
    | some token =>
      obtain ⟨declared, p₂, htaking, h⟩ := bind_ok.mp h
      obtain ⟨-, type, -, rfl⟩ := Element.declareType_ok_iff.mp (changing_ok.mp htaking).1
      obtain ⟨u, p₃, -, h⟩ := bind_ok.mp h
      obtain ⟨rfl, -⟩ := pure_ok.mp h
      rfl
  | min => exact congrArg Info.access (detail_info Element.declareMin_alike h)
  | max => exact congrArg Info.access (detail_info Element.declareMax_alike h)
  | default => exact congrArg Info.access (detail_info Element.declareDefault_alike h)
  | units => exact congrArg Info.access (detail_info Element.declareUnits_alike h)
  | pattern => exact congrArg Info.access (detail_info Element.declarePattern_alike h)
  | caseRule | wording =>
    obtain ⟨value, p₁, -, h⟩ := bind_ok.mp h
    obtain ⟨rfl, -⟩ := pure_ok.mp h
    rfl
  | value =>
    obtain ⟨type, p₁, -, h⟩ := bind_ok.mp h
    dsimp only at h
    split at h
    · obtain ⟨name, p₂, -, h⟩ := bind_ok.mp h
      obtain ⟨-, value, -, hadd⟩ := member_ok h
      obtain ⟨-, -, rfl⟩ := Element.addValue_ok_iff.mp hadd
      rfl
    · obtain ⟨name, p₂, -, h⟩ := bind_ok.mp h
      obtain ⟨-, value, -, hadd⟩ := member_ok h
      obtain ⟨-, -, rfl⟩ := Element.addValue_ok_iff.mp hadd
      rfl
  | reference =>
    obtain ⟨path, p₁, -, h⟩ := bind_ok.mp h
    obtain ⟨-, reference, -, hadd⟩ := member_ok h
    obtain ⟨-, -, rfl⟩ := Element.addReference_ok_iff.mp hadd
    rfl
  | condition =>
    obtain ⟨info, p₁, hattach, h⟩ := bind_ok.mp h
    obtain ⟨condition, -, hinfo⟩ := attachment_ok hattach
    obtain ⟨rfl, -⟩ := pure_ok.mp h
    obtain ⟨-, reference, -, rfl⟩ := Info.attach_ok_iff.mp hinfo
    rfl

/-- A turn without an access clause leaves the access. -/
theorem elementTurn_access [PatternCompiler]
    (hsilent : ∀ q, ¬ (elementLoop opened here).Begins p .access q)
    (hturn : (elementLoop opened here).turn bound e p = .ok (.more e') q) :
    e'.info.access = e.info.access := by
  cases Loop.turned hturn with
  | @clause kind _ p₁ _ hbegins hread =>
    obtain ⟨e₁, p₂, hclause, hread⟩ := bind_ok.mp hread
    obtain ⟨⟨⟩, -⟩ := pure_ok.mp hread
    refine elementClause_access (fun hkind => ?_) hclause
    exact hsilent p₁ (hkind ▸ hbegins)
  | comment => rfl

/-- The access clauses that were read are at most one, and it is stored. -/
theorem ElementTells.access_stored [PatternCompiler]
    (h : ElementTells opened here bound e p own bound' e' r) :
    e'.info.access.toList = e.info.access.toList ++ own := by
  induction h with
  | start => exact (List.append_nil _).symm
  | silent hsilent hturn h ih => rw [ih, elementTurn_access hsilent hturn]
  | access hbegins hsaid hturn h ih =>
    rw [hbegins.turn] at hturn
    obtain ⟨e₂, p₂, hclause, hturn⟩ := bind_ok.mp hturn
    obtain ⟨⟨⟩, -⟩ := pure_ok.mp hturn
    obtain ⟨a', p₃, ha, hnone, hclause⟩ := declaring_ok hclause
    obtain ⟨rfl, -⟩ := pure_ok.mp hclause
    obtain ⟨p₄, hsaid⟩ := hsaid.access_ok
    obtain ⟨rfl, -⟩ := EStateM.Result.ok.inj (ha.symm.trans hsaid)
    rw [ih, hnone]
    rfl

theorem ElementTells.run [PatternCompiler]
    (h : ElementTells opened here bound e p own bound' e' r) :
    (elementLoop opened here).run bound e p = (elementLoop opened here).run bound' e' r := by
  induction h with
  | start => rfl
  | silent hsilent hturn h ih => exact (Loop.run_of_more hturn).trans ih
  | access hbegins hsaid hturn h ih => exact (Loop.run_of_more hturn).trans ih

/-- The last turn of an element changes nothing. -/
theorem elementLoop_stops [PatternCompiler] (hstops : (elementLoop opened here).Stops bound e p)
    (h : (elementLoop opened here).run bound e p = .ok e' q) : e' = e := by
  cases hstops with
  | spent => exact (pure_ok.mp h).1.symm
  | done hturn =>
    obtain ⟨rfl, -⟩ := EStateM.Result.ok.inj ((Loop.run_of_done hturn).symm.trans h)
    cases Loop.turned hturn with
    | sourceEnd => rfl
    | clause _ hread =>
      obtain ⟨e₁, p₂, -, hread⟩ := bind_ok.mp hread
      cases (pure_ok.mp hread).1
    | other hother =>
      obtain ⟨u, p₃, -, hother⟩ := bind_ok.mp hother
      exact (pure_ok.mp hother).1.symm

theorem openElement_access {name : String} (h : openElement p = .ok (opened, name, e) q) :
    e.info.access = none := by
  obtain ⟨line, p₁, -, h⟩ := bind_ok.mp h
  obtain ⟨name', p₂, -, h⟩ := bind_ok.mp h
  obtain ⟨label, p₃, -, h⟩ := bind_ok.mp h
  obtain ⟨help, p₄, -, h⟩ := bind_ok.mp h
  obtain ⟨info, p₅, hinfo, h⟩ := bind_ok.mp h
  obtain ⟨u, p₆, -, h⟩ := bind_ok.mp h
  obtain ⟨⟨⟩, -⟩ := pure_ok.mp h
  obtain ⟨-, text, -, rfl⟩ := Info.ofItem_ok (taking_ok.mp hinfo).1
  rfl

theorem closeElement_info {name : String}
    (h : closeElement access here opened name e p = .ok e' q) :
    e'.info = e.info.inheritAccess access := by
  obtain ⟨u, p₁, -, h⟩ := bind_ok.mp h
  dsimp only at h
  split at h
  · obtain ⟨u₂, p₂, -, h⟩ := bind_ok.mp h
    obtain ⟨u₃, p₃, -, h⟩ := bind_ok.mp h
    obtain ⟨rfl, -⟩ := pure_ok.mp h
    rfl
  · obtain ⟨u₃, p₃, -, h⟩ := bind_ok.mp h
    obtain ⟨rfl, -⟩ := pure_ok.mp h
    rfl

/-- **An element stores the access that it declares, and else the one in force.** -/
theorem ElementOutline.stored [PatternCompiler] (h : ElementOutline bound parent p own)
    (hread : element bound access parent p = .ok e q) :
    ∃ one : Option Access, own = one.toList ∧ e.info.access = some (one.getD access) := by
  obtain ⟨hopen, hbody, hstops⟩ := h
  rw [element_eq] at hread
  rw [bind_at hopen] at hread
  obtain ⟨draft, p₁, hrun, hclose⟩ := bind_ok.mp hread
  rw [hbody.run] at hrun
  obtain rfl := elementLoop_stops hstops hrun
  have hstored := hbody.access_stored
  rw [openElement_access hopen] at hstored
  refine ⟨draft.info.access, hstored.symm, ?_⟩
  rw [closeElement_info hclose]
  rfl

end Elements

/-! ## What bodies store -/

section Bodies
variable {bound bound' : Nat} {place : ListPlace} {d d' : ListDraft} {p q r : Progress}
variable {body : List AccessEntry} {access : Access} {parent : Path} {outer : Nat}

/-- What the turns of a list add to its draft, as far as access goes. -/
structure DraftScoped (d : ListDraft) (body : List AccessEntry) (d' : ListDraft) : Prop where
  items : ∃ items, d'.collection.items = d.collection.items ++ items ∧ Scoped d.access body items
  stored : d'.collection.head.info.access.toList =
    d.collection.head.info.access.toList ++ AccessEntry.declared body
  inForce : AccessEntry.declared body = [] → d'.access = d.access

/-- An item that was read is the last of the collection. -/
theorem adding_ok {α β : Type} {m : Reading α} {item : α → Item} {c : Collection}
    {f : Collection → β} {b : β}
    (h : (do
      let a ← m
      let c ← adding c (item a)
      return f c) p = .ok b q) :
    ∃ a r, m p = .ok a r ∧ b = f { c with items := c.items ++ [item a] } := by
  obtain ⟨a, r, hm, h⟩ := bind_ok.mp h
  obtain ⟨c', r', hadd, h⟩ := bind_ok.mp h
  obtain ⟨rfl, -⟩ := pure_ok.mp h
  obtain ⟨-, rfl⟩ := Collection.add_ok_iff.mp (changing_ok.mp hadd).1
  exact ⟨a, r, hm, rfl⟩

/-- A turn of a list that its outline does not tell. -/
theorem listTurn_silent [PatternCompiler]
    (hsilent : ∀ kind ∈ ListClause.told, ∀ q, ¬ (listLoop place).Begins p kind q)
    (hturn : (listLoop place).turn bound d p = .ok (.more d') q) :
    d'.collection.items = d.collection.items ∧
      d'.collection.head.info.access = d.collection.head.info.access ∧ d'.access = d.access := by
  cases Loop.turned hturn with
  | @clause kind _ p₁ _ hbegins hread =>
    have htold : kind ∉ ListClause.told := fun hkind => hsilent kind hkind p₁ hbegins
    cases kind with
    | access | element | list => exact absurd (by decide) htold
    | capacity | keys =>
      obtain ⟨value, p₂, -, hread⟩ := bind_ok.mp hread
      obtain ⟨⟨⟩, -⟩ := pure_ok.mp hread
      exact ⟨rfl, rfl, rfl⟩
    | condition =>
      obtain ⟨c, p₂, hattach, hread⟩ := bind_ok.mp hread
      obtain ⟨⟨⟩, -⟩ := pure_ok.mp hread
      obtain ⟨info, ⟨condition, -, hinfo⟩, rfl⟩ := attaching_ok rfl hattach
      obtain ⟨-, reference, -, rfl⟩ := Info.attach_ok_iff.mp hinfo
      exact ⟨rfl, rfl, rfl⟩
    | stop => cases hread
  | comment => exact ⟨rfl, rfl, rfl⟩

theorem ListTells.run [PatternCompiler] (h : ListTells place bound d p body bound' d' r) :
    (listLoop place).run bound d p = (listLoop place).run bound' d' r := by
  induction h with
  | start => rfl
  | silent hsilent hturn h ih => exact (Loop.run_of_more hturn).trans ih
  | access hbegins hsaid hturn h ih => exact (Loop.run_of_more hturn).trans ih
  | element hbegins hown hturn h ih => exact (Loop.run_of_more hturn).trans ih
  | list hbegins hopen hinner hstops hturn h _ ih => exact (Loop.run_of_more hturn).trans ih

/-- The last turn of a list changes nothing. -/
theorem listLoop_stops [PatternCompiler] (hstops : (listLoop place).Stops bound d p)
    (h : (listLoop place).run bound d p = .ok d' q) : d' = d := by
  cases hstops with
  | spent => exact (pure_ok.mp h).1.symm
  | done hturn =>
    obtain ⟨rfl, -⟩ := EStateM.Result.ok.inj ((Loop.run_of_done hturn).symm.trans h)
    cases Loop.turned hturn with
    | sourceEnd => rfl
    | @clause kind _ _ _ _ hread =>
      cases kind with
      | stop =>
        obtain ⟨⟨⟩, -⟩ := pure_ok.mp hread
        rfl
      | capacity | keys | access | condition =>
        obtain ⟨value, p₂, -, hread⟩ := bind_ok.mp hread
        cases (pure_ok.mp hread).1
      | element | list =>
        obtain ⟨item, p₂, -, hread⟩ := bind_ok.mp hread
        obtain ⟨value, p₃, -, hread⟩ := bind_ok.mp hread
        cases (pure_ok.mp hread).1
    | other hother => cases hother

theorem openList_access (h : openList access parent outer p = .ok (place, d) q) :
    d.collection.items = [] ∧ d.collection.head.info.access = none ∧ d.access = access := by
  obtain ⟨head, opened, hhead, -, heq, -⟩ := openList_ok rfl h
  obtain ⟨-, rfl⟩ := Prod.mk.inj heq
  exact ⟨rfl, hhead.info.access, rfl⟩

theorem closeList_keeps {c : Collection} (h : closeList place d p = .ok c q) :
    c.items = d.collection.items ∧
      c.head.info.access = some (d.collection.head.info.access.getD d.access) := by
  obtain ⟨hsettle, -⟩ := closeList_ok h
  obtain ⟨hinfo, hitems⟩ := Collection.settle_keeps hsettle
  exact ⟨hitems, by rw [hinfo]; rfl⟩

variable [PatternCompiler]

/-- What a list stores that was opened and filled. -/
theorem DraftScoped.stored_list {c : Collection} {q₁ : Progress} (h : DraftScoped d body d')
    (hopen : openList access parent outer p = .ok (place, d) q)
    (hbody : ListTells place bound d q body bound' d' r)
    (hstops : (listLoop place).Stops bound' d' r)
    (hlist : list (listClauses bound) access parent outer p = .ok c q₁) :
    ∃ own : Option Access, AccessEntry.declared body = own.toList ∧
      c.head.info.access = some (own.getD access) ∧ Scoped access body c.items := by
  -- The list that is read is the one that its turns tell of.
  obtain ⟨d₁, p₁, hrun, hclose⟩ := bind_ok.mp ((bind_at hopen).symm.trans hlist)
  rw [listClauses_eq, hbody.run] at hrun
  obtain rfl := listLoop_stops hstops hrun
  obtain ⟨hnone, hdeclared, rfl⟩ := openList_access hopen
  obtain ⟨hitems, haccess⟩ := closeList_keeps hclose
  obtain ⟨⟨items, hadded, hscoped⟩, hstored, hforce⟩ := h
  rw [hdeclared, Option.toList_none, List.nil_append] at hstored
  rw [hnone, List.nil_append] at hadded
  refine ⟨_, hstored.symm, ?_, by rwa [hitems, hadded]⟩
  rw [haccess]
  cases hown : d₁.collection.head.info.access with
  | some own => rfl
  | none =>
    rw [hown] at hstored
    rw [hforce hstored.symm]

/-- **What the turns of a list add is scoped.** -/
theorem ListTells.scoped (h : ListTells place bound d p body bound' d' r) :
    DraftScoped d body d' := by
  induction h with
  | start => exact ⟨⟨[], (List.append_nil _).symm, .done⟩, (List.append_nil _).symm, fun _ => rfl⟩
  | silent hsilent hturn h ih =>
    obtain ⟨hitems, hinfo, hforce⟩ := listTurn_silent hsilent hturn
    obtain ⟨hscoped, hstored, hinForce⟩ := ih
    rw [hitems, hforce] at hscoped
    rw [hinfo] at hstored
    exact ⟨hscoped, hstored, fun hnone => (hinForce hnone).trans hforce⟩
  | access hbegins hsaid hturn h ih =>
    rw [hbegins.turn] at hturn
    obtain ⟨d₂, p₂, hclause, hturn⟩ := bind_ok.mp hturn
    obtain ⟨⟨⟩, -⟩ := pure_ok.mp hturn
    obtain ⟨a', p₃, ha, hnone, hclause⟩ := declaring_ok hclause
    obtain ⟨rfl, -⟩ := pure_ok.mp hclause
    obtain ⟨p₄, hsaid⟩ := hsaid.access_ok
    obtain ⟨rfl, -⟩ := EStateM.Result.ok.inj (ha.symm.trans hsaid)
    obtain ⟨⟨items, hitems, hscoped⟩, hstored, -⟩ := ih
    refine ⟨⟨items, hitems, .access hscoped⟩, ?_, nofun⟩
    rw [hstored, hnone]
    rfl
  | element hbegins hown hturn h ih =>
    rw [hbegins.turn] at hturn
    obtain ⟨e, p₂, helement, heq⟩ := adding_ok hturn
    cases heq
    obtain ⟨one, rfl, hstored⟩ := hown.stored helement
    obtain ⟨⟨items, hitems, hscoped⟩, hinfo, hforce⟩ := ih
    refine ⟨⟨.element e :: items, ?_, .element hstored hscoped⟩, hinfo, hforce⟩
    rw [hitems, List.append_assoc]
    rfl
  | list hbegins hopen hinner hstops hturn h ihinner ih =>
    rw [hbegins.turn] at hturn
    obtain ⟨l, p₂, hlist, heq⟩ := adding_ok hturn
    cases heq
    obtain ⟨own, hown, hstored, hitemsScoped⟩ := ihinner.stored_list hopen hinner hstops hlist
    obtain ⟨⟨items, hitems, hscoped⟩, hinfo, hforce⟩ := ih
    refine ⟨⟨.ofCollection l :: items, ?_, .list hown hstored hitemsScoped hscoped⟩, hinfo, hforce⟩
    rw [hitems, List.append_assoc]
    rfl

/-- **A list stores the access that it declares, and else the one that it started with.** -/
theorem ListOutline.stored {c : Collection} (h : ListOutline bound access parent outer p body)
    (hread : list (listClauses bound) access parent outer p = .ok c q) :
    ∃ own : Option Access, AccessEntry.declared body = own.toList ∧
      c.head.info.access = some (own.getD access) ∧ Scoped access body c.items := by
  obtain ⟨hopen, hbody, hstops⟩ := h
  exact hbody.scoped.stored_list hopen hbody hstops hread

end Bodies

/-! ## What groups store -/

section Groups
variable [PatternCompiler]
variable {bound bound' : Nat} {place : GroupPlace} {g g' : Group} {p q r : Progress}
variable {body : List AccessEntry}

theorem groupTurn_silent
    (hsilent : ∀ kind ∈ [.element, .list], ∀ q, ¬ (groupLoop place).Begins p kind q)
    (hturn : (groupLoop place).turn bound g p = .ok (.more g') q) :
    g'.body.items = g.body.items := by
  cases Loop.turned hturn with
  | @clause kind _ p₁ _ hbegins hread =>
    have htold : kind ∉ [.element, .list] := fun hkind => hsilent kind hkind p₁ hbegins
    cases kind with
    | element | list => exact absurd (by decide) htold
    | capacity | keys =>
      obtain ⟨value, p₂, -, hread⟩ := bind_ok.mp hread
      obtain ⟨⟨⟩, -⟩ := pure_ok.mp hread
      rfl
    | condition =>
      obtain ⟨c, p₂, hattach, hread⟩ := bind_ok.mp hread
      obtain ⟨⟨⟩, -⟩ := pure_ok.mp hread
      obtain ⟨info, -, rfl⟩ := attaching_ok rfl hattach
      rfl
    | error =>
      obtain ⟨g₁, p₂, herror, hread⟩ := bind_ok.mp hread
      obtain ⟨⟨⟩, -⟩ := pure_ok.mp hread
      rw [errorClause_ok herror]
    | stop => cases hread
  | comment => rfl

theorem GroupTells.run (h : GroupTells place bound g p body bound' g' r) :
    (groupLoop place).run bound g p = (groupLoop place).run bound' g' r := by
  induction h with
  | start => rfl
  | silent hsilent hturn h ih => exact (Loop.run_of_more hturn).trans ih
  | element hbegins hown hturn h ih => exact (Loop.run_of_more hturn).trans ih
  | list hbegins hinner hturn h ih => exact (Loop.run_of_more hturn).trans ih

/-- The last turn of a group changes nothing. -/
theorem groupLoop_stops (hstops : (groupLoop place).Stops bound g p)
    (h : (groupLoop place).run bound g p = .ok g' q) : g' = g := by
  cases hstops with
  | spent => exact (pure_ok.mp h).1.symm
  | done hturn =>
    obtain ⟨rfl, -⟩ := EStateM.Result.ok.inj ((Loop.run_of_done hturn).symm.trans h)
    cases Loop.turned hturn with
    | sourceEnd => rfl
    | @clause kind _ _ _ _ hread =>
      cases kind with
      | stop =>
        obtain ⟨⟨⟩, -⟩ := pure_ok.mp hread
        rfl
      | capacity | keys | error | condition =>
        obtain ⟨value, p₂, -, hread⟩ := bind_ok.mp hread
        cases (pure_ok.mp hread).1
      | element | list =>
        obtain ⟨item, p₂, -, hread⟩ := bind_ok.mp hread
        obtain ⟨value, p₃, -, hread⟩ := bind_ok.mp hread
        cases (pure_ok.mp hread).1
    | other hother =>
      obtain ⟨u, p₃, -, hother⟩ := bind_ok.mp hother
      exact (pure_ok.mp hother).1.symm

/-- **What the turns of a group add is scoped from the default of its table.** -/
theorem GroupTells.scoped (h : GroupTells place bound g p body bound' g' r) :
    ∃ items, g'.body.items = g.body.items ++ items ∧
      Scoped place.here.table.defaultAccess body items := by
  induction h with
  | start => exact ⟨[], (List.append_nil _).symm, .done⟩
  | silent hsilent hturn h ih =>
    rw [groupTurn_silent hsilent hturn] at ih
    exact ih
  | element hbegins hown hturn h ih =>
    rw [hbegins.turn] at hturn
    obtain ⟨e, p₂, helement, heq⟩ := adding_ok hturn
    cases heq
    obtain ⟨one, rfl, hstored⟩ := hown.stored helement
    obtain ⟨items, hitems, hscoped⟩ := ih
    refine ⟨.element e :: items, ?_, .element hstored hscoped⟩
    rw [hitems, List.append_assoc]
    rfl
  | list hbegins hinner hturn h ih =>
    rw [hbegins.turn] at hturn
    obtain ⟨l, p₂, hlist, heq⟩ := adding_ok hturn
    cases heq
    obtain ⟨own, hown, hstored, hinnerScoped⟩ := hinner.stored hlist
    obtain ⟨items, hitems, hscoped⟩ := ih
    refine ⟨.ofCollection l :: items, ?_, .list hown hstored hinnerScoped hscoped⟩
    rw [hitems, List.append_assoc]
    rfl

/-- **A group is registered with items that are scoped as its body is.** -/
theorem GroupOutline.stored {kind : TableKind} {u : Unit} (h : GroupOutline bound p kind body)
    (hread : group bound p = .ok u q) :
    ∃ g : Group, (q.session.table kind).groups = (p.session.table kind).groups ++ [g] ∧
      Scoped kind.defaultAccess body g.body.items := by
  obtain ⟨hopen, rfl, hbody, hstops⟩ := h
  rename_i place bound' g g' q₁ r
  obtain ⟨g₁, p₁, hrun, hclose⟩ := bind_ok.mp ((bind_at hopen).symm.trans hread)
  have htable : p₁.session.table place.here.table = p.session.table place.here.table :=
    Session.table_eq_of_registries
      ((keeps_groupClauses.ok hrun).trans (keeps_openGroup.ok hopen)) _
  rw [groupClauses_eq, hbody.run] at hrun
  obtain rfl := groupLoop_stops hstops hrun
  obtain ⟨closed, table, hsettle, hadd, hsession⟩ := closeGroup_ok hclose
  obtain ⟨-, rfl⟩ := Table.addGroup_ok_iff.mp hadd
  obtain ⟨items, hitems, hscoped⟩ := hbody.scoped
  have hempty : g.body.items = [] := by
    obtain ⟨kind, head, opened, -, heq, -⟩ := openGroup_ok hopen
    rw [(Prod.mk.inj heq).2]
  refine ⟨_, by rw [hsession, Session.withTable_table, htable], ?_⟩
  rw [(Collection.settle_keeps hsettle).2, hitems, hempty]
  exact hscoped

end Groups

/-! ## Second access clauses -/

section Repetitions
variable {p q r : Progress} {site : Site} {own : List Access} {access : Access}

/-- An access clause comes next. -/
def AccessClause (p : Progress) (access : Access) : Prop :=
  ∃ token q, token? p = .ok (some token) q ∧ token.text.toLower = "access" ∧ Says q access

/-- An element or a list has got as far as the progress `r`, and declares these accesses on the
way.  It can take another turn there. -/
inductive Site.Passes [PatternCompiler] : Site → List Access → Progress → Prop
  | element {keyword : Token} {access : Access} {parent : Path} {bound bound' opened : Nat}
      {name : String} {e e' : Element} {p q r : Progress} {own : List Access}
      (hopen : openElement p = .ok (opened, name, e) q)
      (hbody : ElementTells opened (parent.child name) bound e q own (bound' + 1) e' r) :
      Passes ⟨keyword, .element access parent, bound, p⟩ own r
  | list {keyword : Token} {access : Access} {parent : Path} {outer bound bound' : Nat}
      {place : ListPlace} {d d' : ListDraft} {p q r : Progress} {body : List AccessEntry}
      (hopen : openList access parent outer p = .ok (place, d) q)
      (hbody : ListTells place bound d q body (bound' + 1) d' r) :
      Passes ⟨keyword, .list access parent outer, bound, p⟩ (AccessEntry.declared body) r

theorem declareAccess_again {info : Info} (h : info.access ≠ none) :
    info.declareAccess access = .error (.repeatedAccess access) info := by
  rw [Info.declareAccess, Changing.get_bind_at, Changing.refusing_at,
    if_pos (Option.isSome_iff_ne_none.mpr h)]

/-- A second access clause fails where its word has been read. -/
theorem declaring_again {α : Type} {info : Info} {f : Access → Info → Reading α}
    (hinfo : info.access ≠ none) (hsaid : Says p access) : ∃ line q,
    (do
      let access ← Reading.access
      let info ← changing (info.declareAccess access)
      f access info) p = .error { cause := .defect (.repeatedAccess access), line } q := by
  obtain ⟨q, hq⟩ := hsaid.access_ok
  refine ⟨q.stream.line, q, bind_error.mpr (.inr ⟨access, q, hq, bind_error.mpr (.inl ?_)⟩)⟩
  rw [declareAccess_again hinfo]
  rfl

/-- A turn that fails is the end of the loop. -/
theorem Loop.run_of_error [PatternCompiler] {κ σ : Type} {loop : Loop κ σ} {bound : Nat} {state : σ}
    {failure : Failure} (hturn : loop.turn bound state p = .error failure q) :
    loop.run (bound + 1) state p = .error failure q := bind_error.mpr (.inl hturn)

/-- **A second access clause is a failure of the element or the list.** -/
theorem Site.Passes.fails [PatternCompiler] (h : site.Passes own r) (hown : own ≠ [])
    (hclause : AccessClause r access) :
    ∃ line, site.Fails { cause := .defect (.repeatedAccess access), line } := by
  obtain ⟨token, p₁, htoken, hword, hsaid⟩ := hclause
  cases h with
  | @element _ _ parent _ bound' opened name e e' _ _ _ _ hopen hbody =>
    have hbegins : (elementLoop opened (parent.child name)).Begins r .access p₁ :=
      Loop.begins_of_lookup htoken (by rw [hword]; rfl)
    have hdeclared : e'.info.access ≠ none := by
      intro hnone
      have hstored := hbody.access_stored
      rw [hnone, openElement_access hopen] at hstored
      exact hown hstored.symm
    obtain ⟨line, q, hfail⟩ := declaring_again (f := fun _ info => pure { e' with info })
      hdeclared hsaid
    have hturn : (elementLoop opened (parent.child name)).turn bound' e' r =
        .error { cause := .defect (.repeatedAccess access), line } q := by
      rw [hbegins.turn]
      exact bind_error.mpr (.inl hfail)
    refine ⟨line, q, ?_⟩
    show Reading.element _ _ _ _ = _
    rw [element_eq, bind_at hopen]
    exact bind_error.mpr (.inl (hbody.run.trans (Loop.run_of_error hturn)))
  | @list _ _ _ _ _ bound' place d d' _ _ _ body hopen hbody =>
    have hbegins : (listLoop place).Begins r .access p₁ :=
      Loop.begins_of_lookup htoken (by rw [hword]; rfl)
    have hdeclared : d'.collection.head.info.access ≠ none := by
      intro hnone
      have hstored := hbody.scoped.stored
      rw [hnone, (openList_access hopen).2.1] at hstored
      exact hown hstored.symm
    obtain ⟨line, q, hfail⟩ := declaring_again (f := fun access info =>
      pure (⟨{ d'.collection with head := { d'.collection.head with info } }, access⟩ : ListDraft))
      hdeclared hsaid
    have hturn : (listLoop place).turn bound' d' r =
        .error { cause := .defect (.repeatedAccess access), line } q := by
      rw [hbegins.turn]
      exact bind_error.mpr (.inl hfail)
    refine ⟨line, q, ?_⟩
    show Reading.list _ _ _ _ _ = _
    rw [Reading.list, bind_at hopen]
    dsimp only
    rw [listClauses_eq]
    exact bind_error.mpr (.inl (hbody.run.trans (Loop.run_of_error hturn)))

end Repetitions
end Reading

section Sources
open Reading
open Token (Stream)

variable {stream : Stream} {s : Session} {site : Site} {failure : Failure}

/-- The failure of a call is that of the source. -/
theorem CallOf.read_error [PatternCompiler] (h : CallOf stream s site)
    (hfails : site.Fails failure) : (read stream s).result = .error failure := by
  obtain ⟨first, hfirst, hsteps⟩ := h
  have hfirstFails : first.Fails failure := by
    clear hfirst
    induction hsteps using Relation.ReflTransGen.head_induction_on with
    | refl => exact hfails
    | head hmakes _ ih => exact hmakes.fails ih
  obtain ⟨q, hq⟩ := hfirst.fails hfirstFails
  exact read_error_iff.mpr ⟨q, by rw [statements_eq]; exact hq⟩

/-- **Access is lexically scoped.**  A group that is read registers one group, whose items are
what `Scoped` says of its body, from the default of the table on.  Two access clauses of one
element or one list are a failure of the source, wherever they stand in it. -/
theorem access_scoped [PatternCompiler] :
    (∀ (bound : Nat) (p q : Progress), group bound p = .ok () q →
      ∃ (kind : TableKind) (g : Group),
        (q.session.table kind).groups = (p.session.table kind).groups ++ [g] ∧
        (∃ body, GroupOutline bound p kind body) ∧
        ∀ body, GroupOutline bound p kind body → Scoped kind.defaultAccess body g.body.items) ∧
    ∀ (stream : Stream) (s : Session) (site : Site) (own : List Access) (r : Progress)
      (access : Access), CallOf stream s site → site.Passes own r → own ≠ [] →
      AccessClause r access → ∃ line, (read stream s).result =
        .error { cause := .defect (.repeatedAccess access), line } := by
  refine ⟨fun bound p q hread => ?_, fun stream s site own r access hcall hpasses hown hclause => ?_⟩
  · obtain ⟨kind, body, houtline⟩ := group_outline hread
    obtain ⟨g, hgroups, -⟩ := houtline.stored hread
    refine ⟨kind, g, hgroups, ⟨body, houtline⟩, fun body' houtline' => ?_⟩
    -- Only one group is registered, so every outline is of this one.
    obtain ⟨g', hgroups', hscoped⟩ := houtline'.stored hread
    obtain rfl : g' = g := by simpa [hgroups] using hgroups'.symm
    exact hscoped
  · obtain ⟨line, hfails⟩ := hpasses.fails hown hclause
    exact ⟨line, hcall.read_error hfails⟩

/-- A list with an access clause between its elements. -/
def scopedGroup : Progress where
  stream := ⟨none, Stream.numberedLines
    "setting g \"G\"\nlist l \"L\"\nelement a \"A\" type on_off\naccess read_only\nelement b \"B\" type on_off\nend",
    0, none⟩
  session := .ofLimits {}

/-- An element with two access clauses. -/
def repeatedAccess : Stream :=
  ⟨none, Stream.numberedLines
    "group setting g \"G\"\nelement e \"E\" access read_only access read_write", 0, none⟩

/-- The value of a step that succeeds. -/
def value? {α : Type} (m : Reading α) (p : Progress) : Option α :=
  match m p with
  | .ok a _ => some a
  | .error _ _ => none

theorem ok_of_value? {α : Type} {m : Reading α} {p : Progress} {a : α} (h : value? m p = some a) :
    m p = .ok a (after m p) := by
  unfold value? at h
  unfold after
  cases hm : m p with
  | ok b q =>
    rw [hm] at h
    rw [Option.some.inj h]
  | error failure q =>
    rw [hm] at h
    cases h

theorem token_of_word {p : Progress} {word : String}
    (h : p.stream.next.1.map (·.text.toLower) = some word) :
    ∃ token, token? p = .ok (some token) (after token? p) ∧ token.text.toLower = word := by
  obtain ⟨token, htoken, hword⟩ := Option.map_eq_some_iff.mp h
  exact ⟨token, ok_of_value? (congrArg some htoken), hword⟩

attribute [local instance] Text.Pattern.compiler in
theorem access_scoped_small :
    (∃ (q : Progress) (kind : TableKind) (g : Group) (body : List AccessEntry),
      group 40 scopedGroup = .ok () q ∧ GroupOutline 40 scopedGroup kind body ∧
      Scoped kind.defaultAccess body g.body.items) ∧
    ∃ line, (read repeatedAccess (.ofLimits {})).result =
      .error { cause := .defect (.repeatedAccess .readWrite), line } := by
  constructor
  · have hread := @ok_of_value? _ (group 40) scopedGroup () (by decide +kernel)
    obtain ⟨kind, g, -, ⟨body, houtline⟩, hscoped⟩ := access_scoped.1 _ _ _ hread
    exact ⟨_, kind, g, body, hread, houtline, hscoped body houtline⟩
  · let p₀ := Progress.start repeatedAccess (.ofLimits {})
    obtain ⟨n, hn⟩ : ∃ n, repeatedAccess.unread = n + 3 :=
      ⟨repeatedAccess.unread - 3, by decide +kernel⟩
    -- The call for the group, and in it the call for the element.
    obtain ⟨first, hfirst, hgroup⟩ := @token_of_word p₀ "group" (by decide +kernel)
    obtain ⟨token, htoken, hlead⟩ : statementLoop.Begins p₀ .group (after token? p₀) :=
      Loop.begins_of_lookup hfirst (by rw [hgroup]; rfl)
    let p₁ := after token? p₀
    obtain ⟨⟨place, g⟩, hopen⟩ := Option.isSome_iff_exists.mp
      (by decide +kernel : (value? openGroup p₁).isSome)
    let p₂ := after openGroup p₁
    obtain ⟨keyword, hkeyword, helement⟩ := @token_of_word p₂ "element" (by decide +kernel)
    obtain ⟨token₂, htoken₂, hlead₂⟩ : (groupLoop place).Begins p₂ .element (after token? p₂) :=
      Loop.begins_of_lookup hkeyword (by rw [helement]; rfl)
    let p₃ := after token? p₂
    have hcall : CallOf repeatedAccess (.ofLimits {})
        ⟨token₂, .element place.here.table.defaultAccess place.here, n + 2, p₃⟩ := by
      refine ⟨⟨token, .group, n + 3, p₁⟩, ?_, .single (.group (ok_of_value? hopen) ?_)⟩
      · rw [hn]
        exact .now htoken hlead rfl
      · exact .now htoken₂ hlead₂ rfl
    -- The element up to the second access clause.
    obtain ⟨⟨opened, name, e⟩, hopened⟩ := Option.isSome_iff_exists.mp
      (by decide +kernel : (value? openElement p₃).isSome)
    let p₄ := after openElement p₃
    let here := place.here.child name
    obtain ⟨clause, hclause, hword⟩ := @token_of_word p₄ "access" (by decide +kernel)
    have hbegins : (elementLoop opened here).Begins p₄ .access (after token? p₄) :=
      Loop.begins_of_lookup hclause (by rw [hword]; rfl)
    let p₅ := after token? p₄
    have haccess := @ok_of_value? _ access p₅ .readOnly (by decide +kernel)
    let p₆ := after access p₅
    have hnone : e.info.access = none := openElement_access (ok_of_value? hopened)
    have hdeclare : e.info.declareAccess .readOnly =
        .ok () { e.info with access := some .readOnly } :=
      Info.declareAccess_ok_iff.mpr ⟨hnone, rfl⟩
    have hturn : (elementLoop opened here).turn (n + 1) e p₄ = .ok (.more
        { e with info := { e.info with access := some .readOnly } }) p₆ := by
      rw [hbegins.turn]
      refine bind_ok.mpr ⟨_, p₆, bind_ok.mpr ⟨.readOnly, p₆, haccess, ?_⟩, rfl⟩
      exact bind_ok.mpr ⟨_, p₆, changing_ok.mpr ⟨hdeclare, rfl⟩, rfl⟩
    have hpasses : Site.Passes
        ⟨token₂, .element place.here.table.defaultAccess place.here, n + 2, p₃⟩ [.readOnly] p₆ :=
      .element (ok_of_value? hopened) (.access hbegins (says_of_access haccess) hturn .start)
    obtain ⟨again, hagain, hword'⟩ := @token_of_word p₆ "access" (by decide +kernel)
    have hsaid := says_of_access
      (@ok_of_value? _ access (after token? p₆) .readWrite (by decide +kernel))
    exact access_scoped.2 _ _ _ _ _ _ hcall hpasses (by decide) ⟨again, _, hagain, hword', hsaid⟩

end Sources
end DeviceSchema.Statement
