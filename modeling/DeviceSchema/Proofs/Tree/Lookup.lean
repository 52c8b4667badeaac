import DeviceSchema.Proofs.Tree.Mapping

/-! # Looking up what was changed

A lookup takes the first of several siblings that have a name, and so does a change.  What
is said here holds therefore of every tree, also of one in which names are repeated.

A path leads to the same nodes in a mapped tree, but for the mapping
(`Table.resolve_mapElements`).  The element that a path leads to can be changed, and the
tree that this gives is the tree with that element **replaced** (`Table.Replaced`): no
lookup but the one at the path finds something else, and a mapping that hides the
difference between both elements hides the one between both trees.
-/
namespace DeviceSchema

section Mapped
variable {f : List String → Element → Element}

theorem Item.find?_mapBelow (hf : KeepsInfo f) (path : List String) (items : List Item)
    (name : String) :
    find? (mapBelow f path items) name =
      (find? items name).map fun i => i.mapAt f (path ++ [name]) := by
  induction items with
  | nil => rfl
  | cons i rest ih =>
    rw [mapBelow, find?, find?, List.find?_cons, List.find?_cons, mapAt_name hf]
    by_cases hname : i.name = name
    · simp [hname]
    · simp only [hname, decide_false]
      exact ih

theorem Item.walk_mapAt (hf : KeepsInfo f) (names path : List String) (i : Item) :
    (i.mapAt f path).walk names = (i.walk names).map fun j => j.mapAt f (path ++ names) := by
  induction names generalizing i path with
  | nil => simp [walk]
  | cons name rest ih =>
    cases i with
    | element e => rfl
    | list head items =>
      rw [mapAt, walk, walk, find?_mapBelow hf]
      cases find? items name with
      | none => rfl
      | some child => simpa using ih (path ++ [name]) child

variable {t : Table}

theorem Table.group?_mapElements (name : String) :
    (t.mapElements f).group? name = (t.group? name).map (Group.mapElements f) := by
  rw [group?, mapElements, List.find?_map]
  rfl

/-- **A path leads to the same node of a mapped tree, but for the mapping.** -/
theorem Table.resolve_mapElements (hf : KeepsInfo f) (names : List String) :
    (t.mapElements f).resolve names = (t.resolve names).map (Node.mapAt f names) := by
  match names with
  | [] => rfl
  | [name] =>
    rw [resolve, resolve, group?_mapElements, Option.map_map, Option.map_map]
    rfl
  | name :: child :: rest =>
    rw [resolve, resolve, group?_mapElements]
    cases hg : t.group? name with
    | none => rfl
    | some g =>
      have hname : g.name = name := (mem_of_find?_key hg).2
      simp only [Option.map_some, Option.bind_eq_bind, Option.bind_some, Collection.find?,
        Group.mapElements, Item.find?_mapBelow hf]
      cases Item.find? g.body.items child with
      | none => rfl
      | some i =>
        simp only [Option.map_some, Option.bind_some, Item.walk_mapAt hf, hname]
        cases i.walk rest with
        | none => rfl
        | some j => rfl

theorem Node.element?_mapAt (names : List String) (node : Node) :
    (node.mapAt f names).element? = node.element?.map (f names) := by
  match node with
  | .group g => rfl
  | .item (.element e) => rfl
  | .item (.list head items) => rfl

end Mapped

/-- The element that names lead to. -/
def Table.elementAt? (t : Table) (names : List String) : Option Element :=
  (t.resolve names).bind Node.element?

/-- The element that names lead to from a collection with some items. -/
def Item.elementBelow? : List String → List Item → Option Element
  | [], _ => none
  | name :: rest, items => ((find? items name).bind (walk rest)).bind element?

theorem Table.elementAt?_cons (t : Table) (name : String) (rest : List String) :
    t.elementAt? (name :: rest) =
      (t.group? name).bind fun g => Item.elementBelow? rest g.body.items := by
  cases rest with
  | nil =>
    rw [elementAt?, resolve]
    cases t.group? name with
    | none => rfl
    | some g => rfl
  | cons child rest =>
    rw [elementAt?, resolve]
    cases t.group? name with
    | none => rfl
    | some g =>
      simp only [Option.bind_eq_bind, Option.bind_some, Collection.find?, Item.elementBelow?]
      cases Item.find? g.body.items child with
      | none => rfl
      | some i =>
        simp only [Option.bind_some]
        cases i.walk rest with
        | none => rfl
        | some j => rfl

theorem Item.elementBelow?_list {head : Head} {items children : List Item} {name : String}
    {rest : List String} (h : find? items name = some (.list head children)) :
    elementBelow? (name :: rest) items = elementBelow? rest children := by
  rw [elementBelow?, h]
  cases rest with
  | nil => rfl
  | cons next rest => rfl

section First
variable {α : Type} {key : α → String} {before after : List α} {x : α} {name : String}

/-- The first entry that has a key, and what is before it. -/
theorem exists_first {xs : List α} (h : xs.find? (fun y => key y = name) = some x) :
    ∃ before after, xs = before ++ x :: after ∧ (∀ y ∈ before, key y ≠ name) ∧ key x = name := by
  obtain ⟨hx, before, after, rfl, hbefore⟩ := List.find?_eq_some_iff_append.mp h
  exact ⟨before, after, rfl, by simpa using hbefore, by simpa using hx⟩

theorem find?_first (key : α → String) (hbefore : ∀ y ∈ before, key y ≠ name)
    (hx : key x = name) :
    (before ++ x :: after).find? (fun y => key y = name) = some x := by
  refine List.find?_eq_some_iff_append.mpr ⟨by simpa using hx, before, after, rfl, ?_⟩
  simpa using hbefore

/-- Only the lookup of its key sees whether an entry is there. -/
theorem find?_of_ne (key : α → String) {x' : α} {other : String} (hx : key x = name)
    (hx' : key x' = name) (hne : name ≠ other) :
    (before ++ x :: after).find? (fun y => key y = other) =
      (before ++ x' :: after).find? (fun y => key y = other) := by
  have hx : key x ≠ other := hx ▸ hne
  have hx' : key x' ≠ other := hx' ▸ hne
  simp [List.find?_append, hx, hx']

theorem replaceFirst?_first {change : α → Option α} (hbefore : ∀ y ∈ before, key y ≠ name)
    (hx : key x = name) :
    replaceFirst? key change name (before ++ x :: after) =
      (change x).map fun x' => before ++ x' :: after := by
  induction before with
  | nil =>
    rw [List.nil_append, replaceFirst?, if_pos hx]
    rfl
  | cons y rest ih =>
    rw [List.forall_mem_cons] at hbefore
    rw [List.cons_append, replaceFirst?, if_neg hbefore.1, ih hbefore.2, Option.map_map]
    rfl

end First

/-- The second list of items has the element `new` where `names` lead to `old` in the
first; otherwise they are the same. -/
inductive Item.Replaced (old new : Element) : List String → List Item → List Item → Prop
  | here {before after : List Item} (hbefore : ∀ i ∈ before, i.name ≠ old.name) :
      Replaced old new [old.name] (before ++ .element old :: after)
        (before ++ .element new :: after)
  | inside {before after children children' : List Item} {head : Head} {names : List String}
      (hbefore : ∀ i ∈ before, i.name ≠ head.info.name)
      (h : Replaced old new names children children') :
      Replaced old new (head.info.name :: names) (before ++ .list head children :: after)
        (before ++ .list head children' :: after)

section Replacing
variable {old new : Element} {names : List String} {items items' : List Item}

/-- **The element that names lead to can be changed.** -/
theorem Item.updateElement?_replaced (change : Element → Element)
    (h : elementBelow? names items = some old) :
    ∃ items', updateElement? change names items = some items' ∧
      Replaced old (change old) names items items' := by
  induction names generalizing items with
  | nil => cases h
  | cons name rest ih =>
    obtain ⟨i, hfind, hold⟩ : ∃ i, find? items name = some i ∧
        (i.walk rest).bind Item.element? = some old := by
      rw [elementBelow?, Option.bind_eq_some_iff] at h
      obtain ⟨j, hj, hold⟩ := h
      obtain ⟨i, hfind, hwalk⟩ := Option.bind_eq_some_iff.mp hj
      exact ⟨i, hfind, by rw [hwalk, Option.bind_some, hold]⟩
    obtain ⟨before, after, rfl, hbefore, rfl⟩ := exists_first hfind
    cases rest with
    | nil =>
      cases i with
      | list head children => cases hold
      | element e =>
        cases hold
        refine ⟨before ++ .element (change old) :: after, ?_, .here hbefore⟩
        rw [updateElement?, update?_eq, replaceFirst?_first hbefore rfl]
        rfl
    | cons next rest =>
      cases i with
      | element e => cases hold
      | list head children =>
        rw [elementBelow?_list hfind] at h
        obtain ⟨children', hupdate, hreplaced⟩ := ih h
        refine ⟨before ++ .list head children' :: after, ?_, .inside hbefore hreplaced⟩
        rw [updateElement?, update?_eq, replaceFirst?_first hbefore rfl]
        · simp only [hupdate, Option.map_some]
        · simp

/-- An element that is replaced by itself. -/
theorem Item.Replaced.eq (h : Replaced old old names items items') : items' = items := by
  induction h with
  | here => rfl
  | inside hbefore h ih => rw [ih]

/-- Only the lookup at the path of a replaced element finds something else. -/
theorem Item.Replaced.elementBelow? (hinfo : new.info = old.info)
    (h : Replaced old new names items items') (other : List String) :
    elementBelow? other items' = if other = names then some new else elementBelow? other items := by
  have hname : (element new).name = (element old).name := congrArg Info.name hinfo
  induction h generalizing other with
  | @here before after hbefore =>
    match other with
    | [] => rfl
    | child :: rest =>
      by_cases hchild : old.name = child
      · subst hchild
        have hold : find? (before ++ .element old :: after) old.name = some (.element old) :=
          find?_first Item.name hbefore rfl
        have hnew : find? (before ++ .element new :: after) old.name = some (.element new) :=
          find?_first Item.name hbefore hname
        rw [Item.elementBelow?, Item.elementBelow?, hold, hnew]
        cases rest with
        | nil => rw [if_pos rfl]; rfl
        | cons next rest => rw [if_neg (by simp)]; rfl
      · have hne : child :: rest ≠ [old.name] := by simp [Ne.symm hchild]
        have hchild : (element old).name ≠ child := hchild
        rw [if_neg hne, Item.elementBelow?, Item.elementBelow?, find?, find?,
          find?_of_ne Item.name hname rfl hchild]
  | @inside before after children children' head names hbefore h ih =>
    match other with
    | [] => rfl
    | child :: rest =>
      by_cases hchild : head.info.name = child
      · subst hchild
        rw [Item.elementBelow?_list (find?_first Item.name hbefore rfl),
          Item.elementBelow?_list (find?_first Item.name hbefore rfl), ih]
        simp
      · have hne : child :: rest ≠ head.info.name :: names := by simp [Ne.symm hchild]
        have hlist : (list head children).name = (list head children').name := rfl
        rw [if_neg hne, Item.elementBelow?, Item.elementBelow?, find?, find?,
          find?_of_ne Item.name rfl hlist hchild]

/-- A mapping that makes both elements the same makes both lists of items the same. -/
theorem Item.Replaced.mapBelow {f : List String → Element → Element} (hinfo : new.info = old.info)
    (h : Replaced old new names items items') {path : List String}
    (hf : f (path ++ names) new = f (path ++ names) old) :
    mapBelow f path items' = mapBelow f path items := by
  have hname : new.name = old.name := congrArg Info.name hinfo
  induction h generalizing path with
  | here hbefore =>
    have hnew : (Item.element new).mapAt f (path ++ [new.name]) =
        (Item.element old).mapAt f (path ++ [old.name]) := by
      rw [mapAt, mapAt, hname, hf]
    simp only [mapBelow_eq_map, List.map_append, List.map_cons]
    congr 2
  | @inside before after children children' head names hbefore h ih =>
    have hbelow : Item.mapBelow f (path ++ [head.info.name]) children' =
        Item.mapBelow f (path ++ [head.info.name]) children := by
      refine ih ?_
      rwa [List.append_assoc, List.singleton_append]
    have hlist : (Item.list head children').mapAt f (path ++ [head.info.name]) =
        (Item.list head children).mapAt f (path ++ [head.info.name]) := by
      rw [mapAt, mapAt, hbelow]
    simp only [mapBelow_eq_map, List.map_append, List.map_cons]
    congr 2

end Replacing

/-- The table `t'` has the element `new` where `names` lead to `old` in `t`; otherwise they
are the same. -/
structure Table.Replaced (t t' : Table) (names : List String) (old new : Element) : Prop where
  elementAt? : ∀ other, t'.elementAt? other = if other = names then some new else t.elementAt? other
  mapElements : ∀ f : List String → Element → Element, f names new = f names old →
    t'.mapElements f = t.mapElements f
  eq : new = old → t' = t

/-- **The element that a path leads to can be changed.** -/
theorem Table.updateElement?_replaced {t : Table} {names : List String} {old : Element}
    {change : Element → Element} (hinfo : (change old).info = old.info)
    (h : t.elementAt? names = some old) :
    ∃ t', t.updateElement? names change = some t' ∧ t.Replaced t' names old (change old) := by
  cases names with
  | nil => cases h
  | cons name rest =>
    rw [elementAt?_cons] at h
    obtain ⟨g, hfind, hbelow⟩ := Option.bind_eq_some_iff.mp h
    obtain ⟨items', hupdate, hreplaced⟩ := Item.updateElement?_replaced change hbelow
    obtain ⟨before, after, hgroups, hbefore, rfl⟩ := exists_first hfind
    obtain ⟨g', hg'⟩ : ∃ g' : Group, g' = { g with body := { g.body with items := items' } } :=
      ⟨_, rfl⟩
    have hname : g'.name = g.name := by rw [hg']; rfl
    have hitems : g'.body.items = items' := by rw [hg']
    refine ⟨{ t with groups := before ++ g' :: after }, ?_, ?_⟩
    · rw [updateElement?, updateGroup?_eq, hgroups, replaceFirst?_first hbefore rfl, hupdate, hg']
      rfl
    constructor
    · intro other
      cases other with
      | nil => rfl
      | cons group names =>
        rw [elementAt?_cons, elementAt?_cons, group?, group?, hgroups]
        by_cases hgroup : g.name = group
        · subst hgroup
          rw [find?_first Group.name hbefore rfl, find?_first Group.name hbefore hname]
          simp only [Option.bind_some, hitems, hreplaced.elementBelow? hinfo, List.cons.injEq, true_and]
        · have hne : group :: names ≠ g.name :: rest := by simp [Ne.symm hgroup]
          rw [if_neg hne, find?_of_ne Group.name hname rfl hgroup]
    · intro f hf
      have hmapped : Item.mapBelow f [g.name] items' = Item.mapBelow f [g.name] g.body.items :=
        hreplaced.mapBelow hinfo hf
      have hgroup : g'.mapElements f = g.mapElements f := by
        rw [Group.mapElements, Group.mapElements, hname, hitems, hmapped, hg']
      simp only [Table.mapElements, hgroups, List.map_append, List.map_cons, hgroup]
    · intro heq
      rw [heq] at hreplaced
      rw [hg', hreplaced.eq, ← hgroups]

namespace Session

/-- The element that a path leads to. -/
def elementAt? (s : Session) (path : Path) : Option Element :=
  (s.table path.table).elementAt? path.names

theorem elementAt?_eq (s : Session) (path : Path) :
    s.elementAt? path = (s.resolve path).bind Node.element? := rfl

theorem resolve_mapElements {f : Path → Element → Element} (s : Session)
    (hf : ∀ path e, (f path e).info = e.info) (path : Path) :
    (s.mapElements f).resolve path =
      (s.resolve path).map (Node.mapAt (fun names => f ⟨path.table, names⟩) path.names) := by
  rw [resolve, mapElements_table, Table.resolve_mapElements fun names => hf ⟨path.table, names⟩]
  rfl

theorem elementAt?_mapElements {f : Path → Element → Element} (s : Session)
    (hf : ∀ path e, (f path e).info = e.info) (path : Path) :
    (s.mapElements f).elementAt? path = (s.elementAt? path).map (f path) := by
  rw [elementAt?_eq, resolve_mapElements s hf, elementAt?_eq]
  cases s.resolve path with
  | none => rfl
  | some node => exact Node.element?_mapAt path.names node

end Session
end DeviceSchema
