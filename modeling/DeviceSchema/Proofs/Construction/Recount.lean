import DeviceSchema.Proofs.Construction.WellFormed
import DeviceSchema.Proofs.Tree.Recount
import DeviceSchema.Text.Pattern

/-! # Statistics agree with the tree

Readings change the statistics and the index as they go along: before the node in
question is complete, and from many places.  A session **accounts for** some nodes when
its statistics are those from before joined with the recount of these nodes, and its
index is the one from before with their `ref_enum` elements at the end (`Accounts`).

Building an element and filling a collection keep this up for one node more at a time
(`ElementBuilt.accounts`, `Filled.accounts`); what a list notes when it is opened is
made good when it is closed.  So statistics and index of a session that sources have
filled without failure are those of its finished tables (`read_recount`).
-/
namespace DeviceSchema

/-- The session accounts for some nodes of a table, on top of given statistics and a given
index. -/
structure Session.Accounts (s : Session) (base : Statistics) (index : List Path)
    (kind : TableKind) (nodes : List Placed) : Prop where
  statistics : s.statistics = base.union (.recount nodes)
  refEnums : s.refEnums = index ++ refEnumPaths kind nodes

/-- Statistics and index are those of the finished tables: the statistics are their
recount, and the index has the path of every `ref_enum` element once and no other. -/
structure Session.Recounted (s : Session) : Prop where
  statistics : s.statistics = .recount s.nodes
  index_nodup : s.refEnums.Nodup
  mem_index : ∀ path, path ∈ s.refEnums ↔
    ∃ e, (path.names, .item (.element e)) ∈ (s.table path.table).nodes ∧ e.type = some .refEnum

namespace Statistics
variable {base : Statistics} {e : Element}

theorem union_ofMembers_type (h : e.type = none) (type : ValueType) :
    (base.union (ofMembers e)).union { types := [type] } =
      base.union (ofMembers { e with type := some type }) := by
  simp [union, ofMembers, Features.union, Element.memberNames, h]

theorem union_ofMembers_value (value : Info) :
    (base.union (ofMembers e)).union { memberName := value.name.length } =
      base.union (ofMembers { e with values := e.values ++ [value] }) := by
  simp [union, ofMembers, Features.union, Element.memberNames]
  omega

theorem union_ofMembers_reference (reference : Info) :
    (base.union (ofMembers e)).union { memberName := reference.name.length } =
      base.union (ofMembers { e with references := e.references ++ [reference] }) := by
  simp [union, ofMembers, Features.union, Element.memberNames]

end Statistics

namespace Statement
open Statistics

section Elements
variable {scope : Scope} {here : Path} {base : Statistics}

theorem ElementStep.statistics {x y : Element × Session} (h : ElementStep scope here x y)
    (hx : x.2.statistics = base.union (ofMembers x.1)) :
    y.2.statistics = base.union (ofMembers y.1) := by
  cases h with
  | type type htype =>
    rw [Session.note, hx, noteType_union, union_ofMembers_type htype]
  | access | condition => exact hx
  | detail h =>
    rw [hx, ofMembers, ofMembers, Element.memberNames, Element.memberNames, h.values,
      h.references, h.type]
  | value value => rw [Session.note, hx, noteMemberName_union, union_ofMembers_value]
  | reference reference => rw [Session.note, hx, noteMemberName_union, union_ofMembers_reference]

theorem ElementStep.refEnums {x y : Element × Session} (h : ElementStep scope here x y) :
    y.2.refEnums = x.2.refEnums := by
  cases h <;> rfl

theorem ElementSteps.statistics {x y : Element × Session} (h : ElementSteps scope here x y)
    (hx : x.2.statistics = base.union (ofMembers x.1)) :
    y.2.statistics = base.union (ofMembers y.1) := by
  induction h with
  | refl => exact hx
  | tail _ step ih => exact step.statistics ih

theorem ElementSteps.refEnums {x y : Element × Session} (h : ElementSteps scope here x y) :
    y.2.refEnums = x.2.refEnums := by
  induction h with
  | refl => rfl
  | tail _ step ih => exact step.refEnums.trans ih

/-- **A session that builds an element accounts for it.** -/
theorem ElementBuilt.accounts {access : Access} {s s' : Session} {e : Element}
    {index : List Path} {nodes : List Placed} (h : ElementBuilt scope access here s e s')
    (hs : s.Accounts base index here.table nodes) :
    s'.Accounts base index here.table
      (nodes ++ [(here.names ++ [e.name], .item (.element e))]) := by
  obtain ⟨info, draft, t, -, hsteps, he, -, rfl⟩ := h
  have hname : e.name = info.name := by
    rw [he]
    exact hsteps.follows.name
  have hopened : (s.note (·.noteElementName info.name.length)).statistics =
      ((base.union (recount nodes)).union { elementName := info.name.length }).union
        (ofMembers { info }) := by
    rw [Session.note, hs.statistics, noteElementName_union]
    exact union_empty.symm
  have ht := hsteps.statistics hopened
  have hmembers : ofMembers e = ofMembers draft := by rw [he]; rfl
  have hindex : t.refEnums = s.refEnums := hsteps.refEnums
  constructor
  · have hstatistics : (if e.type = some .refEnum then t.noteRefEnum (here.child info.name)
        else t).statistics = t.statistics := by
      split <;> rfl
    rw [hstatistics, ht, recount_append, recount_element, hname, hmembers]
    simp only [union_assoc]
  · rw [refEnumPaths_append, refEnumPaths_element, ← List.append_assoc, ← hs.refEnums, hname]
    by_cases htype : e.type = some .refEnum
    · rw [if_pos htype, if_pos htype, Session.noteRefEnum, hindex]
      rfl
    · rw [if_neg htype, if_neg htype, List.append_nil, hindex]

end Elements
section Collections
variable {scope : Scope} {here : Path} {depth : Nat}

/-- **A session that fills a collection accounts for all that is added to it.** -/
theorem Filled.accounts {d d' : ListDraft} {s s' : Session} {base : Statistics}
    {index : List Path} (h : Filled scope here depth d s d' s')
    (hdepth : here.names.length = depth + 1)
    (hs : s.Accounts base index here.table
      (Item.nodesBelow here.names d.collection.items)) :
    s'.Accounts base index here.table (Item.nodesBelow here.names d'.collection.items) := by
  induction h generalizing base index with
  | done => exact hs
  | draft step _ ih => exact ih hdepth (step.items ▸ hs)
  | element built hadd _ ih =>
    obtain ⟨-, rfl⟩ := Collection.add_ok_iff.mp hadd
    refine ih hdepth ?_
    rw [Item.nodesBelow_append, Item.nodesBelow_singleton, Item.nodesAt]
    exact built.accounts hs
  | @list here depth d s head d₁ s₁ l c d' s' hopen hlimit body hsettle hadd _ ihbody ih =>
    obtain ⟨-, rfl⟩ := Collection.add_ok_iff.mp hadd
    obtain ⟨hinfo, hitems⟩ := Collection.settle_keeps hsettle
    have hname : l.head.info.name = head.info.name := by
      rw [hinfo]
      exact body.headFollows.info.name
    -- What the list notes when it is opened belongs to the base of its body.
    have hbody : s₁.Accounts
        (((base.union (recount (Item.nodesBelow here.names d.collection.items))).union
          { listDepth := depth + 1 }).union { collectionName := head.info.name.length })
        s.refEnums here.table
        (Item.nodesBelow (here.names ++ [head.info.name]) d₁.collection.items) := by
      refine ihbody (by simp [Path.child, hdepth]) ⟨?_, ?_⟩
      · rw [Item.nodesBelow, recount_nil, union_empty]
        simp only [Session.note, hs.statistics, noteListDepth_union, noteCollectionName_union]
      · exact (List.append_nil _).symm
    refine ih hdepth ⟨?_, ?_⟩
    · have hlength : (here.names ++ [head.info.name]).length - 1 = depth + 1 := by
        simp [hdepth]
      simp only [Session.note, hbody.statistics, noteCollection_union, noteType_union]
      rw [Item.nodesBelow_append, Item.nodesBelow_singleton, Item.nodesAt_ofCollection,
        Item.name_ofCollection, recount_append, recount_cons, recount_list, hname, hlength, hitems]
      ac_rfl
    · rw [Item.nodesBelow_append, Item.nodesBelow_singleton, Item.nodesAt_ofCollection,
        Item.name_ofCollection, refEnumPaths_append, ← List.append_assoc, ← hs.refEnums,
        refEnumPaths_cons_of_collection (Node.collection?_list _ _), hname, hitems]
      exact hbody.refEnums

end Collections

section Sessions
variable {s s' : Session}

/-- **A session to which a group is added accounts for its nodes.** -/
theorem GroupAdded.accounts {nodes : List Placed} (h : GroupAdded s s')
    (hs : s.statistics = recount nodes) :
    ∃ kind g table, (s.table kind).addGroup g = .ok () table ∧ s'.table kind = table ∧
      (∀ other, other ≠ kind → s'.table other = s.table other) ∧
      s'.Accounts s.statistics s.refEnums kind g.nodes := by
  obtain ⟨kind, head, d, t, body, errors, table, hopen, hfilled, hr, hsettle, hadd, rfl⟩ := h
  obtain ⟨hinfo, hitems⟩ := Collection.settle_keeps hsettle
  have hname : Group.name ⟨body, errors⟩ = head.info.name :=
    (congrArg Info.name hinfo).trans hfilled.headFollows.info.name
  have hbody : t.Accounts
      ((s.statistics.union {}).union { collectionName := head.info.name.length }) s.refEnums kind
      (Item.nodesBelow [head.info.name] d.collection.items) := by
    refine hfilled.accounts rfl ⟨?_, (List.append_nil _).symm⟩
    rw [Item.nodesBelow, recount_nil, union_empty, Session.note, hs,
      ← recount_union_empty nodes, noteCollectionName_union, union_empty]
  refine ⟨kind, ⟨body, errors⟩, table, hadd, Session.withTable_table, ?_, ?_, ?_⟩
  · intro other hother
    rw [Session.withTable_table_ne hother]
    exact Session.table_eq_of_registries ((t.note_registries _).trans hr) other
  · rw [Session.withTable_statistics, Session.note, hbody.statistics, noteCollection_union,
      Group.nodes, recount_cons, recount_group, hname, hitems]
    rw [hs, recount_union_empty]
    ac_rfl
  · rw [Session.withTable_refEnums, Group.nodes,
      refEnumPaths_cons_of_collection (Node.collection?_group _), hname, hitems]
    exact hbody.refEnums

/-- The paths of the `ref_enum` elements of both tables. -/
def index (s : Session) : List Path :=
  refEnumPaths .setting s.setting.nodes ++ refEnumPaths .state s.state.nodes

/-- What every statement keeps up.  A session has the elements in the order in which they
were read, so it has the index of both tables only up to that order. -/
structure Accounted (s : Session) : Prop where
  statistics : s.statistics = recount s.nodes
  refEnums : s.refEnums.Perm (index s)

theorem GroupAdded.accounted (h : GroupAdded s s') (hs : Accounted s) : Accounted s' := by
  obtain ⟨kind, g, table, hadd, htable, hother, haccounts⟩ := h.accounts hs.statistics
  obtain ⟨-, rfl⟩ := Table.addGroup_ok_iff.mp hadd
  have hnodes : (s'.table kind).nodes = (s.table kind).nodes ++ g.nodes := by
    rw [htable, Table.nodes, List.flatMap_append, List.flatMap_singleton, Table.nodes]
  have hstatistics := haccounts.statistics
  have hindex := haccounts.refEnums
  rw [hs.statistics] at hstatistics
  cases kind with
  | setting =>
    have hstate : s'.state = s.state := hother .state (by simp)
    have hsetting : s'.setting.nodes = s.setting.nodes ++ g.nodes := hnodes
    constructor
    · rw [hstatistics, Session.nodes, Session.nodes, hsetting, hstate]
      simp only [recount_append]
      ac_rfl
    · -- The group was read last, but it comes before the nodes of the state table.
      rw [hindex, index, hsetting, hstate, refEnumPaths_append, List.append_assoc]
      refine (hs.refEnums.append_right _).trans ?_
      rw [index, List.append_assoc]
      exact List.perm_append_comm.append_left _
  | state =>
    have hsetting : s'.setting = s.setting := hother .setting (by simp)
    have hstate : s'.state.nodes = s.state.nodes ++ g.nodes := hnodes
    constructor
    · rw [hstatistics, Session.nodes, Session.nodes, hstate, hsetting]
      simp only [recount_append]
      ac_rfl
    · rw [hindex, index, hstate, hsetting, refEnumPaths_append, ← List.append_assoc]
      exact hs.refEnums.append_right _

theorem SessionStep.accounted (h : SessionStep s s') (hs : Accounted s) : Accounted s' := by
  cases h with
  | globalError catalogs => exact ⟨hs.statistics, hs.refEnums⟩
  | condition condition hadd =>
    obtain ⟨-, rfl⟩ := Table.addCondition_ok_iff.mp hadd
    cases hkind : condition.source.table with
    | setting => exact ⟨hs.statistics, hs.refEnums⟩
    | state => exact ⟨hs.statistics, hs.refEnums⟩
  | group h => exact h.accounted hs

theorem SessionSteps.accounted (h : SessionSteps s s') (hs : Accounted s) : Accounted s' := by
  induction h with
  | refl => exact hs
  | tail _ step ih => exact step.accounted ih

theorem accounted_ofLimits (limits : Limits) : Accounted (.ofLimits limits) :=
  ⟨recount_nil.symm, .refl _⟩

/-- The index of both tables has every path once. -/
theorem nodup_index (hs : s.Distinct) : (index s).Nodup := by
  rw [index, List.nodup_append]
  refine ⟨nodup_refEnumPaths (Table.nodup_paths (hs .setting)),
    nodup_refEnumPaths (Table.nodup_paths (hs .state)), ?_⟩
  intro a ha b hb hab
  have hsetting := (mem_refEnumPaths.mp ha).1
  have hstate := (mem_refEnumPaths.mp hb).1
  rw [← hab, hsetting] at hstate
  cases hstate

theorem mem_index {path : Path} : path ∈ index s ↔
    ∃ e, (path.names, .item (.element e)) ∈ (s.table path.table).nodes ∧
      e.type = some .refEnum := by
  rw [index, List.mem_append, mem_refEnumPaths, mem_refEnumPaths]
  cases path.table with
  | setting => simp [Session.table]
  | state => simp [Session.table]

/-- An index that was recounted is as long as there are `ref_enum` elements. -/
theorem length_index (hs : s.Distinct) (hr : s.Recounted) :
    s.refEnums.length = (s.nodes.filter (·.2.isRefEnum)).length := by
  have hperm : s.refEnums.Perm (index s) :=
    (List.perm_ext_iff_of_nodup hr.index_nodup (nodup_index hs)).mpr fun path =>
      (hr.mem_index path).trans mem_index.symm
  rw [hperm.length_eq, index, List.length_append, refEnumPaths, refEnumPaths, List.length_map,
    List.length_map, Session.nodes, List.filter_append, List.length_append]

theorem Accounted.recounted (h : Accounted s) (hs : s.Distinct) : s.Recounted :=
  ⟨h.statistics, h.refEnums.nodup_iff.mpr (nodup_index hs),
    fun _ => h.refEnums.mem_iff.trans mem_index⟩

theorem read_distinct [PatternCompiler] {limits : Limits} {stream : Token.Stream} :
    (read stream (.ofLimits limits)).progress.session.Distinct := fun kind =>
  (read_sound stream (Session.sound_ofLimits limits) kind).wellFormed.distinct

/-- **After a source that does not fail, statistics and index are what recounting the
finished tables gives.** -/
theorem read_recount [PatternCompiler] (limits : Limits) (stream : Token.Stream)
    (h : (read stream (.ofLimits limits)).result = .ok ()) :
    (read stream (.ofLimits limits)).progress.session.Recounted :=
  ((read_ok h).accounted (accounted_ofLimits limits)).recounted read_distinct

/-- A small source: a condition, a dictionary of two elements, and a list in it.  One of
the elements takes the keys of the dictionary as its members. -/
def smallSource : String :=
  "condition c source /g/e value on
group setting g \"G\" keys \x7b\x7d
element e \"E\" type on_off
list l \"L\" condition c
element x \"X\" type ref_enum ref /g"

/-- Limits that allow a key to be added. -/
def smallLimits : Limits := { keyLength := 1 }

/-- The stream of the small source. -/
def smallStream : Token.Stream :=
  match Token.Stream.ofSource smallSource with
  | .ok stream => stream
  | .error _ => ⟨none, [], 0, none⟩

attribute [local instance] Text.Pattern.compiler in
theorem small_read : (read smallStream (.ofLimits smallLimits)).result = .ok () :=
  except_ok_of_isSome (by decide +kernel)

attribute [local instance] Text.Pattern.compiler in
theorem read_recount_small :
    (read smallStream (.ofLimits smallLimits)).progress.session.refEnums =
        [⟨.setting, ["g", "l", "x"]⟩] ∧
      (read smallStream (.ofLimits smallLimits)).progress.session.Recounted :=
  ⟨by decide +kernel, read_recount smallLimits smallStream small_read⟩

end Sessions
end Statement
end DeviceSchema
