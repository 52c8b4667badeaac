import DeviceSchema.Proofs.Construction.Session
import DeviceSchema.Proofs.Tree.WellFormed

/-! # Readings keep tables well formed

The rules for a node are enforced in three places: some when it is opened, some by its
clauses and some when it is settled or checked.  A node is **sound** in a scope when all
of them hold of it together and what it carries is a condition of the scope
(`Node.Sound`).

Clauses only add to what an item says of itself (`Info.Follows`), so what was checked
when it was opened still holds when it is complete.  An element is sound once it is
built (`ElementBuilt.sound`); filling a collection keeps all that is below it sound
(`Filled.sound`), and the collection itself is sound once it is settled.  A statement
therefore keeps both tables sound, and one that fails leaves them alone.
-/
namespace DeviceSchema

namespace Info

/-- What clauses make of an item at `here`: its name and its description stay, and a
condition that it carries is one of those given. -/
structure Follows (conditions : List Condition) (here : Path) (info info' : Info) : Prop where
  name : info'.name = info.name
  description : info'.description = info.description
  attached : info.Attached conditions here → info'.Attached conditions here

variable {conditions : List Condition} {here : Path} {info info' info'' : Info}

theorem Follows.refl : Follows conditions here info info := ⟨rfl, rfl, id⟩

theorem Follows.trans (h : Follows conditions here info info')
    (h' : Follows conditions here info' info'') : Follows conditions here info info'' :=
  ⟨h'.name.trans h.name, h'.description.trans h.description, fun ha => h'.attached (h.attached ha)⟩

theorem follows_access {access : Option Access} :
    Follows conditions here info { info with access } := ⟨rfl, rfl, id⟩

theorem follows_attach {condition : Condition} (hc : condition ∈ conditions)
    (h : info.attach condition here = .ok () info') : Follows conditions here info info' := by
  obtain ⟨-, reference, hr, rfl⟩ := attach_ok_iff.mp h
  refine ⟨rfl, rfl, fun _ a ha => ?_⟩
  cases ha
  exact ⟨condition, hc, rfl, rfl, hr⟩

end Info

/-- All that is known of a node when it is complete. -/
structure Node.Sound (scope : Scope) (here : Path) (node : Node) : Prop where
  wellFormed : node.WellFormed scope.limits here.names
  attached : node.info.Attached scope.conditions here
  name : Statement.Reading.isName false node.info.name.toList = true

/-- All that is known of the table of some kind. -/
structure Table.Sound (scope : Scope) (kind : TableKind) (t : Table) : Prop where
  groups : (t.groups.map Group.name).Nodup
  nodes : ∀ names node, (names, node) ∈ t.nodes → Node.Sound scope ⟨kind, names⟩ node

theorem Table.Sound.wellFormed {scope : Scope} {kind : TableKind} {t : Table}
    (h : t.Sound scope kind) : t.WellFormed scope.limits :=
  ⟨h.groups, fun names node hn => (h.nodes names node hn).wellFormed⟩

/-- Both tables are sound. -/
def Session.Sound (s : Session) : Prop := ∀ kind, (s.table kind).Sound (s.scope kind) kind

namespace Statement

section Infos
variable {scope : Scope} {here : Path} {info info' : Info}

/-- What was checked when an item was opened holds when it is complete. -/
theorem Opened.wellFormed (h : Opened scope info)
    (hf : info.Follows scope.conditions here info') : info'.WellFormed scope.limits := by
  obtain ⟨plain, hne, hlatin, hlength, hlabel⟩ := h.label
  have hfree : ¬ (info.name.toLower = "error" ∨ info.name.toLower = "warning") := by
    simpa [Info.isReserved, Info.reservedNames] using h.name_free
  rw [← hf.description] at hlabel
  refine ⟨?_, ?_, ?_, ?_, ?_, ⟨plain, hlength, hlabel⟩⟩
  · exact hf.name ▸ nameForm_matches h.name_form
  · exact hf.name ▸ h.name_length
  · exact hf.name ▸ not_or.mp hfree
  · exact hlabel ▸ doubleColons_ne_empty hne
  · have hdoubled := doubleColons_latin1 hlatin
    rw [← hlabel] at hdoubled
    simpa [Reading.isLatin1] using hdoubled

theorem Opened.attached (h : Opened scope info)
    (hf : info.Follows scope.conditions here info') : info'.Attached scope.conditions here := by
  refine hf.attached fun a ha => ?_
  rw [h.condition] at ha
  cases ha

theorem Opened.isName (h : Opened scope info)
    (hf : info.Follows scope.conditions here info') :
    Reading.isName false info'.name.toList = true :=
  hf.name ▸ h.name_form

end Infos

section Elements
variable {scope : Scope} {here : Path}

theorem ElementStep.follows {x y : Element × Session} (h : ElementStep scope here x y) :
    x.1.info.Follows scope.conditions here y.1.info := by
  cases h with
  | type | value | reference => exact .refl
  | access => exact Info.follows_access
  | detail h => exact h.info ▸ .refl
  | condition condition hc h => exact Info.follows_attach hc h

theorem ElementSteps.follows {x y : Element × Session} (h : ElementSteps scope here x y) :
    x.1.info.Follows scope.conditions here y.1.info := by
  induction h with
  | refl => exact .refl
  | tail _ step ih => exact ih.trans step.follows

/-- **An element is sound once it is built.** -/
theorem ElementBuilt.sound {access : Access} {s s' : Session} {e : Element}
    (h : ElementBuilt scope access here s e s') :
    Node.Sound scope (here.child e.name) (.item (.element e)) := by
  obtain ⟨info, draft, t, hopened, hsteps, rfl, hcheck, -⟩ := h
  have hfollows : info.Follows scope.conditions (here.child info.name)
      (draft.info.inheritAccess access) := hsteps.follows.trans Info.follows_access
  have hname : Element.name { draft with info := draft.info.inheritAccess access } = info.name :=
    hfollows.name
  rw [hname]
  refine ⟨⟨hopened.wellFormed hfollows, ?_, ?_, ?_⟩, hopened.attached hfollows,
    hopened.isName hfollows⟩
  · intro c hc
    cases hc
  · intro head items hnode
    cases hnode
  · intro e he
    cases he
    exact ⟨rfl, hcheck⟩

end Elements

section Collections
variable {scope : Scope} {here : Path} {depth : Nat}

/-- What clauses make of what a collection says of itself: its number of instances
stays, and keys are at most those that users add. -/
structure HeadFollows (scope : Scope) (here : Path) (head head' : Head) : Prop where
  info : head.info.Follows scope.conditions here head'.info
  instances : head'.instances = head.instances
  keys : ∀ keys, head'.keys = some keys → head.keys = some keys ∨ keys = []

theorem HeadFollows.refl {head : Head} : HeadFollows scope here head head :=
  ⟨.refl, rfl, fun _ => .inl⟩

theorem HeadFollows.trans {head head' head'' : Head} (h : HeadFollows scope here head head')
    (h' : HeadFollows scope here head' head'') : HeadFollows scope here head head'' := by
  refine ⟨h.info.trans h'.info, h'.instances.trans h.instances, fun keys hk => ?_⟩
  rcases h'.keys keys hk with hk | rfl
  · exact h.keys keys hk
  · exact .inr rfl

theorem DraftStep.headFollows {d d' : ListDraft} (h : DraftStep scope here d d') :
    HeadFollows scope here d.collection.head d'.collection.head := by
  cases h with
  | capacity => exact ⟨.refl, rfl, fun _ => .inl⟩
  | keys => exact ⟨.refl, rfl, fun _ hk => .inr (Option.some.inj hk).symm⟩
  | access => exact ⟨Info.follows_access, rfl, fun _ => .inl⟩
  | condition condition hc h => exact ⟨Info.follows_attach hc h, rfl, fun _ => .inl⟩

theorem DraftStep.items {d d' : ListDraft} (h : DraftStep scope here d d') :
    d'.collection.items = d.collection.items := by
  cases h <;> rfl

theorem Filled.headFollows {d d' : ListDraft} {s s' : Session}
    (h : Filled scope here depth d s d' s') :
    HeadFollows scope here d.collection.head d'.collection.head := by
  induction h with
  | done => exact .refl
  | draft step _ ih => exact step.headFollows.trans ih
  | element _ hadd _ ih =>
    obtain ⟨-, rfl⟩ := Collection.add_ok_iff.mp hadd
    exact ih
  | list _ _ _ _ hadd _ _ ih =>
    obtain ⟨-, rfl⟩ := Collection.add_ok_iff.mp hadd
    exact ih

/-- Siblings have different names, and all that is below them is sound. -/
structure ItemsSound (scope : Scope) (here : Path) (items : List Item) : Prop where
  siblings : (items.map Item.name).Nodup
  nodes : ∀ names node, (names, node) ∈ Item.nodesBelow here.names items →
    Node.Sound scope ⟨here.table, names⟩ node

theorem ItemsSound.nil : ItemsSound scope here [] := by
  refine ⟨by simp, fun names node h => ?_⟩
  rw [Item.nodesBelow] at h
  cases h

theorem ItemsSound.add {c c' : Collection} {i : Item} (h : ItemsSound scope here c.items)
    (hadd : c.add i = .ok () c')
    (hi : ∀ names node, (names, node) ∈ i.nodesAt (here.names ++ [i.name]) →
      Node.Sound scope ⟨here.table, names⟩ node) : ItemsSound scope here c'.items := by
  obtain ⟨hnew, rfl⟩ := Collection.add_ok_iff.mp hadd
  constructor
  · exact nodup_keys_append h.siblings hnew
  · intro names node hmem
    rw [Item.nodesBelow_append, List.mem_append, Item.nodesBelow_singleton] at hmem
    rcases hmem with hmem | hmem
    · exact h.nodes names node hmem
    · exact hi names node hmem

/-- **A collection that is settled is well formed.** -/
theorem OpenedHead.wellFormed {head : Head} {c l : Collection} (hopen : OpenedHead scope head)
    (hhead : HeadFollows scope here head c.head) (hitems : ItemsSound scope here c.items)
    (hsettle : c.settle scope.limits = (.ok (), l)) : l.WellFormed scope.limits := by
  obtain ⟨hsettled, rfl⟩ := Collection.settle_ok hsettle
  refine ⟨hitems.siblings, hsettled.items_ne_nil, hsettled.capacity_isSome, ?_,
    hsettled.keys_flexible, hsettled.keys_allowed⟩
  have hinstances := Head.settled_instances c.head
  have hcounted := hsettled.counted_iff
  simp only [Head.settled_keys] at hcounted ⊢
  rw [hhead.instances] at hinstances
  cases hkeys : c.head.keys with
  | none =>
    rw [if_pos hkeys] at hinstances
    refine .inl ⟨_, hinstances, ?_, rfl⟩
    cases hcount : head.instances with
    | none => simp
    | some n => exact hopen.instances_pos n hcount
  | some keys =>
    rw [hkeys] at hcounted
    refine .inr ⟨by simpa using hcounted, ?_⟩
    rcases hhead.keys keys hkeys with hk | rfl
    · rw [hopen.keys] at hk
      cases hk
    · rfl

/-- **Filling a collection keeps all that is below it sound.** -/
theorem Filled.sound {d d' : ListDraft} {s s' : Session} (h : Filled scope here depth d s d' s')
    (hdepth : here.names.length = depth + 1) (hitems : ItemsSound scope here d.collection.items) :
    ItemsSound scope here d'.collection.items := by
  induction h with
  | done => exact hitems
  | draft step _ ih => exact ih hdepth (step.items ▸ hitems)
  | element built hadd _ ih =>
    refine ih hdepth (hitems.add hadd fun names node hmem => ?_)
    rw [Item.mem_nodesAt_element] at hmem
    cases hmem
    exact built.sound
  | @list here depth d s head d₁ s₁ l c d' s' hopen hlimit body hsettle hadd _ ihbody ih =>
    have hbelow : ItemsSound scope (here.child head.info.name) d₁.collection.items :=
      ihbody (by simp [Path.child, hdepth]) .nil
    have hhead : HeadFollows scope (here.child head.info.name) head d₁.inherited.head :=
      body.headFollows.trans ⟨Info.follows_access, rfl, fun _ => .inl⟩
    have hwell : l.WellFormed scope.limits := hopen.wellFormed hhead hbelow hsettle
    obtain ⟨hinfo, hitemsl⟩ := Collection.settle_keeps hsettle
    have hfollows : head.info.Follows scope.conditions (here.child head.info.name) l.head.info :=
      hinfo ▸ hhead.info
    refine ih hdepth (hitems.add hadd fun names node hmem => ?_)
    rw [Item.nodesAt_ofCollection, Item.name_ofCollection, hfollows.name, hitemsl] at hmem
    rcases List.mem_cons.mp hmem with hmem | hmem
    · cases hmem
      refine ⟨⟨?_, ?_, ?_, ?_⟩, hopen.info.attached hfollows, hopen.info.isName hfollows⟩
      · exact hopen.info.wellFormed hfollows
      · intro c hc
        cases hc
        exact hitemsl ▸ hwell
      · intro head' items hnode
        cases hnode
        rw [hinfo, List.length_append, hdepth]
        exact ⟨rfl, hlimit⟩
      · intro e he
        cases he
    · exact hbelow.nodes names node hmem

end Collections
end Statement

section Tables
variable {limits : Limits} {kind : TableKind} {t t' : Table} {s : Session}

/-- A condition that is added extends the scope of a table and nothing else. -/
theorem Table.Sound.addCondition {condition : Condition} (h : t.Sound ⟨limits, t.conditions⟩ kind)
    (hadd : t.addCondition condition = .ok () t') : t'.Sound ⟨limits, t'.conditions⟩ kind := by
  obtain ⟨-, rfl⟩ := Table.addCondition_ok_iff.mp hadd
  refine ⟨h.groups, fun names node hmem => ?_⟩
  have hnode := h.nodes names node hmem
  exact ⟨hnode.wellFormed, hnode.attached.mono fun c hc => List.mem_append_left _ hc, hnode.name⟩

theorem Table.Sound.addGroup {g : Group} (h : t.Sound ⟨limits, t.conditions⟩ kind)
    (hadd : t.addGroup g = .ok () t')
    (hg : ∀ names node, (names, node) ∈ g.nodes →
      Node.Sound ⟨limits, t.conditions⟩ ⟨kind, names⟩ node) :
    t'.Sound ⟨limits, t'.conditions⟩ kind := by
  obtain ⟨hnew, rfl⟩ := Table.addGroup_ok_iff.mp hadd
  constructor
  · exact nodup_keys_append h.groups hnew
  · intro names node hmem
    rw [Table.nodes, List.flatMap_append, List.mem_append, List.flatMap_singleton] at hmem
    rcases hmem with hmem | hmem
    · exact h.nodes names node hmem
    · exact hg names node hmem

theorem Session.sound_of_registries {s t : Session} (h : s.registries = t.registries)
    (ht : t.Sound) : s.Sound := by
  intro kind
  rw [Session.scope_eq_of_registries h, Session.table_eq_of_registries h]
  exact ht kind

/-- A table that is sound may take the place of the old one. -/
theorem Session.Sound.withTable (h : s.Sound) (ht : t.Sound ⟨s.limits, t.conditions⟩ kind) :
    (s.withTable kind t).Sound := by
  intro other
  by_cases hkind : other = kind
  · subst hkind
    rw [Session.scope, Session.withTable_table, Session.withTable_limits]
    exact ht
  · rw [Session.scope, Session.withTable_table_ne hkind, Session.withTable_limits]
    exact h other

theorem Session.sound_ofLimits (limits : Limits) : (Session.ofLimits limits).Sound := by
  intro kind
  constructor
  · cases kind <;> exact List.nodup_nil
  · intro names node hmem
    cases kind <;> cases hmem

end Tables

namespace Statement

section Sources
variable {s s' : Session}

/-- The nodes of a group that was opened, filled and settled are sound. -/
theorem Filled.group_sound {scope : Scope} {kind : TableKind} {head : Head} {d : ListDraft}
    {access : Access} {t : Session} {body : Collection} {errors : List Notice}
    (hopen : OpenedHead scope head)
    (hfilled : Filled scope ⟨kind, [head.info.name]⟩ 0 ⟨{ head }, access⟩ s d t)
    (hsettle : d.collection.settle scope.limits = (.ok (), body)) {names : List String}
    {node : Node} (hmem : (names, node) ∈ Group.nodes ⟨body, errors⟩) :
    Node.Sound scope ⟨kind, names⟩ node := by
  have hbelow : ItemsSound scope ⟨kind, [head.info.name]⟩ d.collection.items :=
    hfilled.sound rfl .nil
  have hhead := hfilled.headFollows
  obtain ⟨hinfo, hitems⟩ := Collection.settle_keeps hsettle
  have hfollows : head.info.Follows scope.conditions ⟨kind, [head.info.name]⟩ body.head.info :=
    hinfo ▸ hhead.info
  have hname : Group.name ⟨body, errors⟩ = head.info.name := hfollows.name
  rw [Group.nodes, hname, hitems, List.mem_cons] at hmem
  rcases hmem with hmem | hmem
  · cases hmem
    refine ⟨⟨hopen.info.wellFormed hfollows, ?_, ?_, ?_⟩, hopen.info.attached hfollows,
      hopen.info.isName hfollows⟩
    · intro c hc
      cases hc
      exact hopen.wellFormed hhead hbelow hsettle
    · intro head' items hnode
      cases hnode
    · intro e he
      cases he
  · exact hbelow.nodes names node hmem

theorem GroupAdded.sound (hadded : GroupAdded s s') (h : s.Sound) : s'.Sound := by
  obtain ⟨kind, head, d, t, body, errors, table, hopen, hfilled, hr, hsettle, hadd, rfl⟩ := hadded
  have ht : (t.note (·.noteCollection body.head true)).Sound :=
    Session.sound_of_registries ((t.note_registries _).trans hr) h
  have hlimits : (t.note (·.noteCollection body.head true)).limits = s.limits :=
    (Prod.mk.inj hr).1
  refine ht.withTable ?_
  rw [hlimits]
  exact (h kind).addGroup hadd fun names node hmem => hfilled.group_sound hopen hsettle hmem

theorem SessionStep.sound (hstep : SessionStep s s') (h : s.Sound) : s'.Sound := by
  cases hstep with
  | globalError catalogs =>
    intro kind
    cases kind with
    | setting => exact h .setting
    | state => exact h .state
  | condition condition hadd => exact h.withTable ((h _).addCondition hadd)
  | group hadded => exact hadded.sound h

theorem SessionSteps.sound (hsteps : SessionSteps s s') (h : s.Sound) : s'.Sound := by
  induction hsteps with
  | refl => exact h
  | tail _ step ih => exact step.sound ih

theorem SessionStep.limits (hstep : SessionStep s s') : s'.limits = s.limits := by
  cases hstep with
  | globalError => rfl
  | condition => exact Session.withTable_limits
  | group hadded =>
    obtain ⟨kind, head, d, t, body, errors, table, -, -, hr, -, -, rfl⟩ := hadded
    exact Session.withTable_limits.trans (Prod.mk.inj hr).1

theorem SessionSteps.limits (hsteps : SessionSteps s s') : s'.limits = s.limits := by
  induction hsteps with
  | refl => rfl
  | tail _ step ih => exact step.limits.trans ih

variable [PatternCompiler]

/-- A source keeps both tables sound, whether it is read to its end or not. -/
theorem read_sound (stream : Token.Stream) (h : s.Sound) :
    (read stream s).progress.session.Sound := by
  obtain ⟨t, hsteps, hr⟩ := read_steps stream s
  exact Session.sound_of_registries hr (hsteps.sound h)

theorem read_limits (stream : Token.Stream) (s : Session) :
    (read stream s).progress.session.limits = s.limits := by
  obtain ⟨t, hsteps, hr⟩ := read_steps stream s
  exact (Prod.mk.inj hr).1.trans hsteps.limits

/-- The session that sources lead to when each is read into what those before it left,
whether they failed or not. -/
def sessionAfter (limits : Limits) (streams : List Token.Stream) : Session :=
  streams.foldl (fun s stream => (read stream s).progress.session) (.ofLimits limits)

theorem sessionAfter_sound (limits : Limits) (streams : List Token.Stream) :
    (sessionAfter limits streams).Sound ∧ (sessionAfter limits streams).limits = limits := by
  unfold sessionAfter
  have hfresh := Session.sound_ofLimits limits
  have hlimits : (Session.ofLimits limits).limits = limits := rfl
  generalize Session.ofLimits limits = s at hfresh hlimits
  induction streams generalizing s with
  | nil => exact ⟨hfresh, hlimits⟩
  | cons stream rest ih =>
    exact ih _ (read_sound stream hfresh) ((read_limits stream s).trans hlimits)

/-- **Whatever sources are read, both tables are well formed**: also after sources that
failed, and whatever follows them. -/
theorem tables_wellFormed (limits : Limits) (streams : List Token.Stream) (kind : TableKind) :
    ((sessionAfter limits streams).table kind).WellFormed limits := by
  obtain ⟨hsound, hlimits⟩ := sessionAfter_sound limits streams
  have hwell := (hsound kind).wellFormed
  rw [Session.scope, hlimits] at hwell
  exact hwell

end Sources
end Statement
end DeviceSchema
