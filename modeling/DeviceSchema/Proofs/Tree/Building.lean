import DeviceSchema.Proofs.Tree.Atomic
import DeviceSchema.Proofs.Tree.Contents

/-! # Trees that were built by adding

A table is filled with groups by one call for each, and a collection with items.  A call is
refused if the name is taken.  What the next call finds is whatever the refused one has left; as
the calls are atomic, this is what was there before, and everything goes on as if the refused
call had not been made.

Whatever the calls were, what they fill holds the entries whose calls were accepted, in order,
and these are the first of each name (`Appends.filledBy`).  So siblings have different names
everywhere in a tree that was built by calls at every level, and that is all a lookup needs to
find each node by the names that lead to it, and to find nothing by any others
(`Table.Distinct.addressed`).  Both together are `Table.ofCalls_filled`.
-/
namespace DeviceSchema

section Calls
variable {σ α : Type}

/-- What is there after a call, as the call has left it. -/
def offer (add : α → Changing σ Unit) (s : σ) (x : α) : σ :=
  match add x s with
  | .ok _ s' => s'
  | .error _ s' => s'

/-- What is there after some calls. -/
def offerAll (add : α → Changing σ Unit) (s : σ) (calls : List α) : σ :=
  calls.foldl (offer add) s

/-- What was added by those of the calls that were accepted. -/
def accepted (add : α → Changing σ Unit) : σ → List α → List α
  | _, [] => []
  | s, x :: rest =>
    match add x s with
    | .ok _ s' => x :: accepted add s' rest
    | .error _ s' => accepted add s' rest

/-- The first entry of each key. -/
def firsts (key : α → String) : List α → List α
  | [] => []
  | x :: rest => x :: (firsts key rest).filter fun y => key y ≠ key x

/-- A call appends an entry, and it is refused if and only if the key of the entry is taken. -/
structure Appends (add : α → Changing σ Unit) (entries : σ → List α) (key : α → String) :
    Prop where
  atomic : ∀ x, Atomic (add x)
  ok : ∀ {s x s'}, add x s = .ok () s' →
    (∀ y ∈ entries s, key y ≠ key x) ∧ entries s' = entries s ++ [x]
  error : ∀ {s x defect s'}, add x s = .error defect s' → ∃ y ∈ entries s, key y = key x

/-- What `calls` have filled that began with `s`. -/
structure FilledBy (add : α → Changing σ Unit) (entries : σ → List α) (key : α → String)
    (s : σ) (calls : List α) : Prop where
  /-- The entries stand in the order in which they were added. -/
  order : entries (offerAll add s calls) = accepted add s calls
  first : accepted add s calls = firsts key calls
  distinct : ((entries (offerAll add s calls)).map key).Nodup
  /-- A refused call changes nothing, and may as well not have been made. -/
  refused : ∀ {before x after defect s'}, calls = before ++ x :: after →
    add x (offerAll add s before) = .error defect s' →
    s' = offerAll add s before ∧ offerAll add s calls = offerAll add s (before ++ after)

variable {add : α → Changing σ Unit} {entries : σ → List α} {key : α → String} {s s' : σ}
  {x : α} {defect : Defect} {calls : List α}

theorem offer_ok (h : add x s = .ok () s') : offer add s x = s' := by
  rw [offer, h]

theorem offerAll_cons (s : σ) (x : α) (rest : List α) :
    offerAll add s (x :: rest) = offerAll add (offer add s x) rest := rfl

theorem accepted_ok (h : add x s = .ok () s') (rest : List α) :
    accepted add s (x :: rest) = x :: accepted add s' rest := by
  rw [accepted, h]

theorem offerAll_append (s : σ) (before after : List α) :
    offerAll add s (before ++ after) = offerAll add (offerAll add s before) after :=
  List.foldl_append

section AtomicCalls
variable (hatomic : ∀ x, Atomic (add x))
include hatomic

theorem offer_error (h : add x s = .error defect s') : offer add s x = s := by
  rw [offer, h]
  exact hatomic x s defect s' h

theorem accepted_error (h : add x s = .error defect s') (rest : List α) :
    accepted add s (x :: rest) = accepted add s rest := by
  rw [accepted, h]
  exact congrArg (accepted add · rest) (hatomic x s defect s' h)

/-- A refused call may be left out of the calls. -/
theorem offerAll_refused {before after : List α}
    (h : add x (offerAll add s before) = .error defect s') :
    s' = offerAll add s before ∧
      offerAll add s (before ++ x :: after) = offerAll add s (before ++ after) := by
  refine ⟨hatomic x _ defect s' h, ?_⟩
  rw [offerAll_append, offerAll_append, offerAll_cons, offer_error hatomic h]

/-- What each accepted call relates the states by, if it is reflexive and transitive, all calls
relate them by. -/
theorem offerAll_related {rel : σ → σ → Prop} (hrefl : ∀ s, rel s s)
    (htrans : ∀ {s s' s''}, rel s s' → rel s' s'' → rel s s'')
    (hstep : ∀ s x s', x ∈ calls → add x s = .ok () s' → rel s s') (s : σ) :
    rel s (offerAll add s calls) := by
  induction calls generalizing s with
  | nil => exact hrefl s
  | cons x rest ih =>
    have hrest := ih (fun s y s' hy => hstep s y s' (List.mem_cons_of_mem x hy)) (offer add s x)
    cases hadd : add x s with
    | ok _ s' =>
      rw [offer_ok hadd] at hrest
      rw [offerAll_cons, offer_ok hadd]
      exact htrans (hstep s x s' List.mem_cons_self hadd) hrest
    | error defect s' =>
      rw [offer_error hatomic hadd] at hrest
      rw [offerAll_cons, offer_error hatomic hadd]
      exact hrest

/-- What each accepted call keeps, all calls keep. -/
theorem offerAll_keeps {good : σ → Prop}
    (hstep : ∀ s x s', x ∈ calls → add x s = .ok () s' → good s → good s') (hs : good s) :
    good (offerAll add s calls) :=
  @offerAll_related σ α add calls hatomic (fun s s' => good s → good s') (fun _ h => h)
    (fun h h' hs => h' (h hs)) hstep s hs

/-- If an accepted call appends what it adds, all calls append what the accepted ones add. -/
theorem offerAll_appends {β : Type} {view : σ → List β} {added : α → Option β}
    (hstep : ∀ s x s', add x s = .ok () s' → view s' = view s ++ (added x).toList) (s : σ)
    (calls : List α) :
    view (offerAll add s calls) = view s ++ (accepted add s calls).filterMap added := by
  induction calls generalizing s with
  | nil => exact (List.append_nil _).symm
  | cons x rest ih =>
    rw [offerAll_cons]
    cases hadd : add x s with
    | ok _ s' =>
      rw [offer_ok hadd, accepted_ok hadd, ih, hstep s x s' hadd, List.append_assoc]
      cases hx : added x <;> simp [hx]
    | error defect s' => rw [offer_error hatomic hadd, accepted_error hatomic hadd, ih]

end AtomicCalls

theorem mem_of_mem_firsts (h : x ∈ firsts key calls) : x ∈ calls := by
  induction calls with
  | nil => exact h
  | cons y rest ih =>
    rcases List.mem_cons.mp h with rfl | h
    · exact List.mem_cons_self
    · exact List.mem_cons_of_mem y (ih (List.mem_filter.mp h).1)

namespace Appends
variable (h : Appends add entries key)
include h

theorem entries_offerAll (s : σ) (calls : List α) :
    entries (offerAll add s calls) = entries s ++ accepted add s calls := by
  have hstep (s x s') (hadd : add x s = .ok () s') :
      entries s' = entries s ++ (some x).toList := (h.ok hadd).2
  rw [offerAll_appends h.atomic hstep, List.filterMap_some]

/-- The accepted calls are the first for each key that was not taken before. -/
theorem accepted_eq (s : σ) (calls : List α) :
    accepted add s calls = (firsts key calls).filter fun x => ∀ y ∈ entries s, key y ≠ key x := by
  induction calls generalizing s with
  | nil => rfl
  | cons x rest ih =>
    rw [firsts, List.filter_cons]
    cases hadd : add x s with
    | ok _ s' =>
      obtain ⟨hnew, hentries⟩ := h.ok hadd
      rw [accepted_ok hadd, ih, if_pos (by simpa using hnew), List.filter_filter, hentries]
      -- From now on the key of `x` is taken as well.
      congr 1
      refine List.filter_congr fun z _ => ?_
      grind
    | error defect s' =>
      obtain ⟨y, hy, hkey⟩ := h.error hadd
      rw [accepted_error h.atomic hadd, ih, if_neg (by simpa using ⟨y, hy, hkey⟩),
        List.filter_filter]
      -- Whatever has the key of `x` has the key of `y`, which was taken before.
      refine List.filter_congr fun z _ => ?_
      grind

theorem nodup_offerAll (hs : ((entries s).map key).Nodup) (calls : List α) :
    ((entries (offerAll add s calls)).map key).Nodup := by
  have hstep (s x s') (_ : x ∈ calls) (hadd : add x s = .ok () s')
      (hs : ((entries s).map key).Nodup) : ((entries s').map key).Nodup := by
    obtain ⟨hnew, hentries⟩ := h.ok hadd
    rw [hentries]
    exact nodup_keys_append hs hnew
  exact offerAll_keeps h.atomic hstep hs

/-- **Calls fill what has no entries with the first of each key, in order.** -/
theorem filledBy (hs : entries s = []) (calls : List α) : FilledBy add entries key s calls where
  order := by rw [h.entries_offerAll, hs, List.nil_append]
  first := by
    rw [h.accepted_eq, hs]
    simp
  distinct := h.nodup_offerAll (by simp [hs]) calls
  refused := by
    rintro before x after defect s' rfl hadd
    exact offerAll_refused h.atomic hadd

end Appends
end Calls

section Adding

theorem Collection.appends_add : Appends add items Item.name where
  atomic _ := atomic_add
  ok hadd := by
    obtain ⟨hnew, rfl⟩ := add_ok_iff.mp hadd
    exact ⟨hnew, rfl⟩
  error hadd := by
    by_contra hnew
    rw [add_ok_iff.mpr ⟨by simpa using hnew, rfl⟩] at hadd
    cases hadd

theorem Table.appends_addGroup : Appends addGroup groups Group.name where
  atomic _ := atomic_addGroup
  ok hadd := by
    obtain ⟨hnew, rfl⟩ := addGroup_ok_iff.mp hadd
    exact ⟨hnew, rfl⟩
  error hadd := by
    by_contra hnew
    rw [addGroup_ok_iff.mpr ⟨by simpa using hnew, rfl⟩] at hadd
    cases hadd

/-- The collection that calls with some items fill. -/
def Collection.ofCalls (head : Head) (calls : List Item) : Collection :=
  offerAll add ⟨head, []⟩ calls

/-- The table that calls with some groups fill. -/
def Table.ofCalls (kind : TableKind) (calls : List Group) : Table :=
  offerAll addGroup { kind } calls

/-- The item was built by calls, and so was everything below it. -/
inductive Item.Built : Item → Prop
  | element (e : Element) : Built (.element e)
  | list (head : Head) {calls : List Item} (h : ∀ i ∈ calls, Built i) :
      Built (.list head (Collection.ofCalls head calls).items)

/-- The collection was built by calls, and so was everything below it. -/
def Collection.Built (c : Collection) : Prop :=
  ∃ calls, (∀ i ∈ calls, i.Built) ∧ c = ofCalls c.head calls

theorem Collection.head_offerAll (c : Collection) (calls : List Item) :
    (offerAll add c calls).head = c.head := by
  induction calls generalizing c with
  | nil => rfl
  | cons i rest ih =>
    rw [offerAll_cons, ih]
    cases hadd : c.add i with
    | ok _ c' =>
      rw [offer_ok hadd]
      obtain ⟨-, rfl⟩ := add_ok_iff.mp hadd
      rfl
    | error defect c' => rw [offer_error appends_add.atomic hadd]

theorem Collection.ofCalls_eq (head : Head) (calls : List Item) :
    ofCalls head calls = ⟨head, (ofCalls head calls).items⟩ := by
  have hhead : (ofCalls head calls).head = head := head_offerAll ⟨head, []⟩ calls
  calc ofCalls head calls = ⟨(ofCalls head calls).head, (ofCalls head calls).items⟩ := rfl
    _ = ⟨head, (ofCalls head calls).items⟩ := by rw [hhead]

theorem Collection.filledBy (head : Head) (calls : List Item) :
    FilledBy add items Item.name ⟨head, []⟩ calls :=
  appends_add.filledBy rfl calls

theorem Table.filledBy (kind : TableKind) (calls : List Group) :
    FilledBy addGroup groups Group.name { kind } calls :=
  appends_addGroup.filledBy rfl calls

theorem Collection.items_ofCalls (head : Head) (calls : List Item) :
    (ofCalls head calls).items = firsts Item.name calls :=
  (filledBy head calls).order.trans (filledBy head calls).first

theorem Table.groups_ofCalls (kind : TableKind) (calls : List Group) :
    (ofCalls kind calls).groups = firsts Group.name calls :=
  (filledBy kind calls).order.trans (filledBy kind calls).first

/-- Every collection in an item that was built was built. -/
theorem Item.Built.collection {i : Item} (h : i.Built) {path names : List String} {node : Node}
    {c : Collection} (hmem : (names, node) ∈ i.nodesAt path) (hc : node.collection? = some c) :
    c.Built := by
  induction h generalizing path with
  | element e =>
    rw [mem_nodesAt_element] at hmem
    cases hmem
    cases hc
  | list head h ih =>
    rcases mem_nodesAt_list.mp hmem with hself | hbelow
    · cases hself
      cases hc
      exact ⟨_, h, (Collection.ofCalls_eq head _).symm⟩
    · obtain ⟨j, hj, hmem⟩ := mem_nodesBelow.mp hbelow
      rw [Collection.items_ofCalls] at hj
      exact ih j (mem_of_mem_firsts hj) hmem

end Adding

section Addressing
variable {change : Element → Element}

theorem Item.updateElement?_eq_none {names : List String} {items : List Item}
    (h : elementBelow? names items = none) : updateElement? change names items = none := by
  induction names generalizing items with
  | nil => rfl
  | cons name rest ih =>
    rw [updateElement?_cons]
    cases hfind : find? items name with
    | none =>
      refine replaceFirst?_eq_none ?_
      simpa [find?] using hfind
    | some i =>
      -- The lookup and the change both take the first item of the name.
      obtain ⟨before, after, rfl, hbefore, hname⟩ := exists_first hfind
      rw [replaceFirst?_first hbefore hname, Option.map_eq_none_iff]
      cases i with
      | element e =>
        cases rest with
        | nil =>
          rw [elementBelow?, hfind] at h
          cases h
        | cons next rest => rfl
      | list head children =>
        rw [elementBelow?_list hfind] at h
        rw [updateFrom?, ih h, Option.map_none]

/-- Where names lead to no element, nothing is changed. -/
theorem Table.updateElement?_eq_none {t : Table} {names : List String}
    (h : t.elementAt? names = none) : t.updateElement? names change = none := by
  cases names with
  | nil => rfl
  | cons name rest =>
    rw [updateElement?_cons, Option.map_eq_none_iff]
    rw [elementAt?_cons] at h
    cases hfind : t.group? name with
    | none =>
      refine replaceFirst?_eq_none ?_
      simpa [group?] using hfind
    | some g =>
      obtain ⟨before, after, hgroups, hbefore, hname⟩ := exists_first hfind
      rw [hfind, Option.bind_some] at h
      rw [hgroups, replaceFirst?_first hbefore hname, Option.map_eq_none_iff,
        Group.updateElement?, Item.updateElement?_eq_none h, Option.map_none]

theorem Node.element?_eq_some {node : Node} {e : Element} (h : node.element? = some e) :
    node = .item (.element e) := by
  cases node with
  | group g => cases h
  | item i =>
    cases i with
    | element e' =>
      cases h
      rfl
    | list head items => cases h

/-- Every node is addressed by the names that lead to it, and nothing by any others. -/
structure Table.Addressed (t : Table) : Prop where
  found : ∀ names node, (names, node) ∈ t.nodes → t.resolve names = some node
  nowhere : ∀ names, (∀ node, (names, node) ∉ t.nodes) → t.resolve names = none
  changed : ∀ names e change, (names, .item (.element e)) ∈ t.nodes →
    t.updateElement? names change = some (t.mapElements (changeAt names change))
  unchanged : ∀ names change, (∀ e, (names, .item (.element e)) ∉ t.nodes) →
    t.updateElement? names change = none

/-- **Different names of siblings suffice to address every node.** -/
theorem Table.Distinct.addressed {t : Table} (h : t.Distinct) : t.Addressed where
  found _ _ hmem := (resolve_iff h).mpr hmem
  nowhere names hnone := by
    rw [Option.eq_none_iff_forall_ne_some]
    intro node hnode
    exact hnone node ((resolve_iff h).mp hnode)
  changed _ _ _ hmem := updateElement?_eq h hmem
  unchanged names change hnone := by
    refine updateElement?_eq_none ?_
    rw [elementAt?, Option.eq_none_iff_forall_ne_some]
    intro e he
    obtain ⟨node, hnode, helement⟩ := Option.bind_eq_some_iff.mp he
    rw [Node.element?_eq_some helement] at hnode
    exact hnone e ((resolve_iff h).mp hnode)

variable {kind : TableKind} {calls : List Group}

/-- Every collection of a table that was built was built. -/
theorem Table.built_of_mem_nodes (h : ∀ g ∈ calls, g.body.Built) {names : List String}
    {node : Node} {c : Collection} (hmem : (names, node) ∈ (ofCalls kind calls).nodes)
    (hc : node.collection? = some c) : c.Built := by
  obtain ⟨g, hg, ⟨-, rfl⟩ | hbelow⟩ := mem_nodes.mp hmem
  · cases hc
    rw [groups_ofCalls] at hg
    exact h g (mem_of_mem_firsts hg)
  · rw [groups_ofCalls] at hg
    obtain ⟨calls, hcalls, hbody⟩ := h g (mem_of_mem_firsts hg)
    obtain ⟨i, hi, hmem⟩ := Item.mem_nodesBelow.mp hbelow
    rw [hbody, Collection.items_ofCalls] at hi
    exact (hcalls i (mem_of_mem_firsts hi)).collection hmem hc

theorem Table.distinct_ofCalls (h : ∀ g ∈ calls, g.body.Built) : (ofCalls kind calls).Distinct where
  groups := (filledBy kind calls).distinct
  siblings names node c hmem hc := by
    obtain ⟨items, -, hcalls⟩ := built_of_mem_nodes h hmem hc
    rw [hcalls]
    exact (Collection.filledBy c.head items).distinct

/-- **A tree that was built by calls at every level holds in order what was added by the calls
that were accepted, siblings in it have different names, and each of its nodes is addressed by
the names that lead to it.** -/
theorem Table.ofCalls_filled (kind : TableKind) (h : ∀ g ∈ calls, g.body.Built) :
    FilledBy addGroup groups Group.name { kind } calls ∧
    (∀ head items, FilledBy Collection.add Collection.items Item.name ⟨head, []⟩ items) ∧
    (∀ names node c, (names, node) ∈ (ofCalls kind calls).nodes → node.collection? = some c →
      c.Built ∧ (c.items.map Item.name).Nodup) ∧
    (ofCalls kind calls).Addressed := by
  refine ⟨filledBy kind calls, Collection.filledBy, ?_, (distinct_ofCalls h).addressed⟩
  intro names node c hmem hc
  exact ⟨built_of_mem_nodes h hmem hc, (distinct_ofCalls h).siblings names node c hmem hc⟩

/-- A group with a list in it.  Two calls with elements were refused, as their names were taken. -/
def Group.small : Group where
  body := .ofCalls ⟨⟨"g", "G", none, none, none⟩, none, none, none⟩
    [.list ⟨⟨"l", "L", none, none, none⟩, some 2, none, none⟩
        (Collection.ofCalls ⟨⟨"l", "L", none, none, none⟩, some 2, none, none⟩
          [.element { info := ⟨"e", "E", none, none, none⟩ },
            .element { info := ⟨"e", "Again", none, none, none⟩ }]).items,
      .element { info := ⟨"l", "Again", none, none, none⟩ }]

theorem Group.small_built : small.body.Built := by
  refine ⟨_, fun i hi => ?_, rfl⟩
  simp only [List.mem_cons, List.not_mem_nil, or_false] at hi
  rcases hi with rfl | rfl
  · refine .list _ fun j hj => ?_
    simp only [List.mem_cons, List.not_mem_nil, or_false] at hj
    rcases hj with rfl | rfl <;> exact .element _
  · exact .element _

/-- A group is refused the second time. -/
theorem Table.ofCalls_filled_small :
    (∀ g ∈ [Group.small, Group.small], g.body.Built) ∧
    (ofCalls .setting [Group.small, Group.small]).groups.length = 1 ∧
    (ofCalls .setting [Group.small, Group.small]).nodes.map Prod.fst =
      [["g"], ["g", "l"], ["g", "l", "e"]] ∧
    (ofCalls .setting [Group.small, Group.small]).Addressed := by
  have hbuilt : ∀ g ∈ [Group.small, Group.small], g.body.Built := by
    simpa using Group.small_built
  refine ⟨hbuilt, by decide, ?_, (ofCalls_filled .setting hbuilt).2.2.2⟩
  decide +kernel

end Addressing
end DeviceSchema
