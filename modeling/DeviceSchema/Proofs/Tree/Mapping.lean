import DeviceSchema.Proofs.Tree.Nodes

/-! # Changing the elements of a tree

**Mapping** a tree changes every element by a function that may look at its path and
leaves everything else as it is.  As long as elements keep what they say of themselves
(`KeepsInfo`), the nodes of a mapped tree are the mapped nodes of the tree
(`Table.nodes_mapElements`), so a mapped tree is as distinct as the tree was.

Changing the one element that some names lead to is a mapping as well: one that leaves
all elements at other paths alone (`Table.updateElement?_eq`).  Several such changes in
turn are therefore one mapping.
-/
namespace DeviceSchema

mutual

/-- The item at `path` with its elements changed. -/
def Item.mapAt (f : List String → Element → Element) (path : List String) : Item → Item
  | .element e => .element (f path e)
  | .list head items => .list head (Item.mapBelow f path items)

/-- The items of the collection at `path` with their elements changed. -/
def Item.mapBelow (f : List String → Element → Element) (path : List String) :
    List Item → List Item
  | [] => []
  | i :: rest => i.mapAt f (path ++ [i.name]) :: Item.mapBelow f path rest

end

/-- The group with its elements changed. -/
def Group.mapElements (f : List String → Element → Element) (g : Group) : Group :=
  { g with body := { g.body with items := Item.mapBelow f [g.name] g.body.items } }

/-- The table with its elements changed. -/
def Table.mapElements (f : List String → Element → Element) (t : Table) : Table :=
  { t with groups := t.groups.map (Group.mapElements f) }

/-- The node at `path` with its elements changed. -/
def Node.mapAt (f : List String → Element → Element) (path : List String) : Node → Node
  | .group g => .group (g.mapElements f)
  | .item i => .item (i.mapAt f path)

/-- No element changes what it says of itself. -/
def KeepsInfo (f : List String → Element → Element) : Prop := ∀ path e, (f path e).info = e.info

section Mapping
variable {f g : List String → Element → Element} {path : List String}

theorem Item.mapBelow_eq_map (items : List Item) :
    mapBelow f path items = items.map fun i => i.mapAt f (path ++ [i.name]) := by
  induction items with
  | nil => rw [mapBelow, List.map_nil]
  | cons i rest ih => rw [mapBelow, ih, List.map_cons]

theorem Item.mapAt_info (hf : KeepsInfo f) (i : Item) : (i.mapAt f path).info = i.info := by
  cases i with
  | element e => exact hf path e
  | list head items => rfl

theorem Item.mapAt_name (hf : KeepsInfo f) (i : Item) : (i.mapAt f path).name = i.name :=
  congrArg Info.name (mapAt_info hf i)

theorem Item.map_name_mapBelow (hf : KeepsInfo f) (items : List Item) :
    (mapBelow f path items).map name = items.map name := by
  rw [mapBelow_eq_map, List.map_map]
  exact List.map_congr_left fun i _ => mapAt_name hf i

theorem Node.mapAt_info (hf : KeepsInfo f) (node : Node) : (node.mapAt f path).info = node.info := by
  cases node with
  | group g => rfl
  | item i => exact i.mapAt_info hf

/-- Mappings that agree on all elements of an item give the same. -/
theorem Item.mapAt_congr {i : Item}
    (h : ∀ names e, (names, .item (.element e)) ∈ i.nodesAt path → f names e = g names e) :
    i.mapAt f path = i.mapAt g path := by
  induction i using Item.induction generalizing path with
  | element e => rw [mapAt, mapAt, h path e (mem_nodesAt_element.mpr rfl)]
  | list head items ih =>
    rw [mapAt, mapAt, mapBelow_eq_map, mapBelow_eq_map]
    congr 1
    refine List.map_congr_left fun i hi => ih i hi fun names e hmem => h names e ?_
    exact mem_nodesAt_list.mpr (.inr (mem_nodesBelow.mpr ⟨i, hi, hmem⟩))

theorem Item.mapAt_id (i : Item) : i.mapAt (fun _ e => e) path = i := by
  induction i using Item.induction generalizing path with
  | element e => rw [mapAt]
  | list head items ih =>
    rw [mapAt, mapBelow_eq_map]
    congr 1
    exact (List.map_congr_left fun i hi => ih i hi).trans (List.map_id items)

/-- Two mappings in turn are one. -/
theorem Item.mapAt_mapAt (hf : KeepsInfo f) (i : Item) :
    (i.mapAt f path).mapAt g path = i.mapAt (fun names e => g names (f names e)) path := by
  induction i using Item.induction generalizing path with
  | element e => rw [mapAt, mapAt, mapAt]
  | list head items ih =>
    rw [mapAt, mapAt, mapAt, mapBelow_eq_map, mapBelow_eq_map, mapBelow_eq_map, List.map_map]
    congr 1
    refine List.map_congr_left fun i hi => ?_
    rw [Function.comp_apply, mapAt_name hf, ih i hi]

theorem Table.mapElements_congr {t : Table}
    (h : ∀ names e, (names, .item (.element e)) ∈ t.nodes → f names e = g names e) :
    t.mapElements f = t.mapElements g := by
  unfold mapElements
  congr 1
  refine List.map_congr_left fun group hgroup => ?_
  have hitems : Item.mapBelow f [group.name] group.body.items =
      Item.mapBelow g [group.name] group.body.items := by
    rw [Item.mapBelow_eq_map, Item.mapBelow_eq_map]
    refine List.map_congr_left fun i hi => Item.mapAt_congr fun names e hmem => h names e ?_
    exact mem_nodes.mpr ⟨group, hgroup, .inr (Item.mem_nodesBelow.mpr ⟨i, hi, hmem⟩)⟩
  rw [Group.mapElements, hitems, Group.mapElements]

theorem Table.mapElements_id (t : Table) : t.mapElements (fun _ e => e) = t := by
  have hgroup (group : Group) : group.mapElements (fun _ e => e) = group := by
    simp only [Group.mapElements, Item.mapBelow_eq_map, Item.mapAt_id, List.map_id']
  have hgroups : t.groups.map (Group.mapElements fun _ e => e) = t.groups := by
    rw [List.map_congr_left fun group _ => hgroup group, List.map_id']
  rw [mapElements, hgroups]

theorem Table.mapElements_mapElements (hf : KeepsInfo f) (t : Table) :
    (t.mapElements f).mapElements g = t.mapElements fun names e => g names (f names e) := by
  unfold mapElements
  congr 1
  rw [List.map_map]
  refine List.map_congr_left fun group _ => ?_
  have hitems : Item.mapBelow g [group.name] (Item.mapBelow f [group.name] group.body.items) =
      Item.mapBelow (fun names e => g names (f names e)) [group.name] group.body.items := by
    rw [Item.mapBelow_eq_map, Item.mapBelow_eq_map, Item.mapBelow_eq_map, List.map_map]
    refine List.map_congr_left fun i _ => ?_
    rw [Function.comp_apply, Item.mapAt_name hf]
    exact Item.mapAt_mapAt hf i
  rw [Function.comp_apply, Group.mapElements, Group.mapElements, Group.mapElements, ← hitems]
  rfl

end Mapping

section MappedNodes
variable {f : List String → Element → Element}

/-- A node of a tree with its elements changed, and the names that lead to it. -/
def Placed.mapElements (f : List String → Element → Element) (placed : Placed) : Placed :=
  (placed.1, placed.2.mapAt f placed.1)

theorem Item.nodesAt_mapAt (hf : KeepsInfo f) (i : Item) (path : List String) :
    (i.mapAt f path).nodesAt path = (i.nodesAt path).map (Placed.mapElements f) := by
  induction i using Item.induction generalizing path with
  | element e =>
    rw [mapAt, nodesAt, nodesAt, List.map_singleton]
    rfl
  | list head items ih =>
    rw [mapAt, nodesAt, nodesAt, List.map_cons, nodesBelow_eq_flatMap, nodesBelow_eq_flatMap,
      List.map_flatMap, mapBelow_eq_map, List.flatMap_map]
    congr 1
    · rw [Placed.mapElements, Node.mapAt, mapAt, mapBelow_eq_map]
    · rw [List.flatMap_congr fun i hi => ?_]
      rw [mapAt_name hf]
      exact ih i hi _

theorem Table.nodes_mapElements (hf : KeepsInfo f) (t : Table) :
    (t.mapElements f).nodes = t.nodes.map (Placed.mapElements f) := by
  unfold nodes mapElements
  rw [List.flatMap_map, List.map_flatMap]
  refine List.flatMap_congr fun group _ => ?_
  rw [Group.nodes, Group.nodes, List.map_cons]
  congr 1
  simp only [Group.mapElements, Group.name, Collection.name, Item.nodesBelow_eq_flatMap,
    Item.mapBelow_eq_map, List.flatMap_map, List.map_flatMap]
  refine List.flatMap_congr fun i _ => ?_
  rw [Item.mapAt_name hf]
  exact Item.nodesAt_mapAt hf i _

variable {t : Table} {names : List String}

theorem Table.mem_nodes_mapElements (hf : KeepsInfo f) {node : Node} :
    (names, node) ∈ (t.mapElements f).nodes ↔
      ∃ old, (names, old) ∈ t.nodes ∧ node = old.mapAt f names := by
  rw [nodes_mapElements hf, List.mem_map]
  constructor
  · rintro ⟨⟨names', old⟩, hmem, hplaced⟩
    obtain ⟨rfl, rfl⟩ := Prod.mk.inj hplaced
    exact ⟨old, hmem, rfl⟩
  · rintro ⟨old, hmem, rfl⟩
    exact ⟨(names, old), hmem, rfl⟩

/-- The elements of a mapped tree are the changed elements of the tree. -/
theorem Table.mem_elements_mapElements (hf : KeepsInfo f) {e : Element} :
    (names, .item (.element e)) ∈ (t.mapElements f).nodes ↔
      ∃ old, (names, .item (.element old)) ∈ t.nodes ∧ e = f names old := by
  rw [mem_nodes_mapElements hf]
  constructor
  · rintro ⟨old, hmem, hnode⟩
    match old with
    | .group g => cases hnode
    | .item (.list head items) => cases hnode
    | .item (.element old) =>
      cases hnode
      exact ⟨old, hmem, rfl⟩
  · rintro ⟨old, hmem, rfl⟩
    exact ⟨_, hmem, rfl⟩

theorem Table.Distinct.mapElements (hf : KeepsInfo f) (h : t.Distinct) :
    (t.mapElements f).Distinct := by
  constructor
  · have hnames : (t.mapElements f).groups.map Group.name = t.groups.map Group.name := by
      rw [Table.mapElements, List.map_map]
      rfl
    rw [hnames]
    exact h.groups
  · intro names node c hmem hc
    obtain ⟨old, hold, rfl⟩ := (mem_nodes_mapElements hf).mp hmem
    match old with
    | .group g =>
      cases hc
      have hg := h.siblings names (.group g) g.body hold rfl
      exact (Item.map_name_mapBelow hf g.body.items).symm ▸ hg
    | .item (.list head items) =>
      cases hc
      have hlist := h.siblings names (.item (.list head items)) ⟨head, items⟩ hold rfl
      exact (Item.map_name_mapBelow hf items).symm ▸ hlist
    | .item (.element e) => cases hc

end MappedNodes
section Updating

/-- Changes the first entry that has a key, if `change` allows it. -/
def replaceFirst? {α : Type} (key : α → String) (change : α → Option α) (name : String) :
    List α → Option (List α)
  | [] => none
  | x :: rest =>
    if key x = name then (change x).map (· :: rest)
    else (replaceFirst? key change name rest).map (x :: ·)

theorem Item.update?_eq (change : Item → Option Item) (child : String) (items : List Item) :
    update? change child items = replaceFirst? name change child items := by
  induction items with
  | nil => rfl
  | cons i rest ih => rw [update?, replaceFirst?, ih]

theorem Table.updateGroup?_eq (change : Group → Option Group) (name : String)
    (groups : List Group) :
    updateGroup? change name groups = replaceFirst? Group.name change name groups := by
  induction groups with
  | nil => rfl
  | cons g rest ih => rw [updateGroup?, replaceFirst?, ih]

/-- Where keys are different, the first entry of a key is the only one that changes. -/
theorem replaceFirst?_eq_map {α : Type} {key : α → String} {change : α → Option α}
    {xs : List α} {x : α} {F : α → α} (h : (xs.map key).Nodup) (hx : x ∈ xs)
    (hchange : change x = some (F x)) (hother : ∀ y ∈ xs, key y ≠ key x → F y = y) :
    replaceFirst? key change (key x) xs = some (xs.map F) := by
  induction xs with
  | nil => cases hx
  | cons y rest ih =>
    rw [List.map_cons, List.nodup_cons] at h
    rw [replaceFirst?, List.map_cons]
    rcases List.mem_cons.mp hx with rfl | hx
    · have hrest : rest.map F = rest := by
        refine (List.map_congr_left fun z hz => ?_).trans (List.map_id' rest)
        exact hother z (List.mem_cons_of_mem _ hz) fun he => h.1 (he ▸ List.mem_map_of_mem hz)
      rw [if_pos rfl, hchange, Option.map_some, hrest]
    · have hne : key y ≠ key x := fun he => h.1 (he ▸ List.mem_map_of_mem hx)
      rw [if_neg hne, ih h.2 hx fun z hz => hother z (List.mem_cons_of_mem y hz),
        hother y List.mem_cons_self hne, Option.map_some]

/-- The change of the element that `target` leads to. -/
def changeAt (target : List String) (change : Element → Element) (names : List String)
    (e : Element) : Element :=
  if names = target then change e else e

variable {change : Element → Element} {path : List String}

/-- Nothing changes in an item that the path does not lead into. -/
theorem Item.mapAt_changeAt {i : Item} {target : List String} (h : ¬ path <+: target) :
    i.mapAt (changeAt target change) path = i := by
  refine (mapAt_congr fun names e hmem => ?_).trans i.mapAt_id
  refine if_neg fun he => h ?_
  have hleads : path <+: names := path_isPrefix hmem
  rwa [he] at hleads

theorem not_isPrefix_of_ne {name child : String} {rest : List String} (hne : name ≠ child) :
    ¬ path ++ [name] <+: path ++ child :: rest := by
  rintro ⟨more, hmore⟩
  rw [List.append_assoc, List.append_cancel_left_eq, List.singleton_append,
    List.cons.injEq] at hmore
  exact hne hmore.1

theorem Item.updateElement?_eq {names : List String} {items : List Item} {e : Element}
    (hnames : (items.map name).Nodup) (hbelow : DistinctSiblings (nodesBelow path items))
    (hmem : (path ++ names, .item (.element e)) ∈ nodesBelow path items) :
    updateElement? change names items =
      some (mapBelow (changeAt (path ++ names) change) path items) := by
  induction names generalizing path items with
  | nil =>
    obtain ⟨i, -, -, rest, hrest⟩ := path_below hmem
    simp at hrest
  | cons child names ih =>
    obtain ⟨child', rest, i, j, hpath, hfind, hwalk, hj⟩ :=
      (mem_nodesBelow_iff hnames hbelow).mp hmem
    rw [List.append_cancel_left_eq, List.cons.injEq] at hpath
    obtain ⟨rfl, rfl⟩ := hpath
    obtain ⟨hi, rfl⟩ := (find?_eq_some hnames).mp hfind
    cases hj
    rw [mapBelow_eq_map]
    cases names with
    | nil =>
      cases hwalk
      rw [updateElement?, update?_eq]
      refine replaceFirst?_eq_map hnames hi ?_ fun y _ hne =>
        mapAt_changeAt (not_isPrefix_of_ne hne)
      rw [mapAt, changeAt, if_pos rfl]
      rfl
    | cons next names =>
      cases i with
      | element e' => cases hwalk
      | list head children =>
        -- The target leads into this list and into none of its siblings.
        rw [updateElement?, update?_eq]
        · refine replaceFirst?_eq_map hnames hi ?_ fun y _ hne =>
            mapAt_changeAt (not_isPrefix_of_ne hne)
          obtain ⟨hchildren, hdeeper⟩ := (hbelow.child hi).list
          have hmem' := (mem_nodesAt_iff (hbelow.child hi)).mpr ⟨_, _, rfl, hwalk, rfl⟩
          have hne : ((path ++ [(Item.list head children).name]) ++ next :: names,
              Node.item (.element e)) ≠ (path ++ [(Item.list head children).name],
              Node.item (.list head children)) := by
            intro he
            cases (Prod.mk.inj he).2
          have hin := (mem_nodesAt_list.mp hmem').resolve_left hne
          rw [mapAt]
          simp only [ih hchildren hdeeper hin, Option.map_some, List.append_assoc,
            List.singleton_append]
        · simp

/-- **Changing the element that a path leads to changes the tree there and nowhere else.** -/
theorem Table.updateElement?_eq {t : Table} {names : List String} {e : Element}
    (h : t.Distinct) (hmem : (names, .item (.element e)) ∈ t.nodes) :
    t.updateElement? names change = some (t.mapElements (changeAt names change)) := by
  obtain ⟨g, hg, ⟨-, hnode⟩ | hbelow⟩ := mem_nodes.mp hmem
  · cases hnode
  · obtain ⟨i, -, -, rest, hrest⟩ := Item.path_below hbelow
    obtain ⟨hnames, hdistinct⟩ := h.body hg
    obtain rfl : names = g.name :: i.name :: rest := hrest
    have hitems : Item.updateElement? change (i.name :: rest) g.body.items =
        some (Item.mapBelow (changeAt (g.name :: i.name :: rest) change) [g.name] g.body.items) :=
      Item.updateElement?_eq hnames hdistinct hbelow
    have hgroups : replaceFirst? Group.name (fun g =>
        (Item.updateElement? change (i.name :: rest) g.body.items).map fun items =>
          { g with body := { g.body with items } }) g.name t.groups =
        some (t.groups.map (Group.mapElements
          (changeAt (g.name :: i.name :: rest) change))) := by
      refine replaceFirst?_eq_map h.groups hg ?_ fun f hf hne => ?_
      · rw [hitems]
        rfl
      · have hid : Item.mapBelow (changeAt (g.name :: i.name :: rest) change) [f.name]
            f.body.items = f.body.items := by
          rw [Item.mapBelow_eq_map]
          refine (List.map_congr_left fun j hj => ?_).trans (List.map_id' _)
          refine Item.mapAt_changeAt fun hleads => hne ?_
          exact (List.cons_prefix_cons.mp hleads).1
        rw [Group.mapElements, hid]
    rw [updateElement?, updateGroup?_eq, hgroups]
    rfl

end Updating
namespace Session

/-- The session with the elements of both tables changed. -/
def mapElements (f : Path → Element → Element) (s : Session) : Session :=
  { s with
    setting := s.setting.mapElements fun names => f ⟨.setting, names⟩
    state := s.state.mapElements fun names => f ⟨.state, names⟩ }

variable {s : Session} {f g : Path → Element → Element}

theorem mapElements_table (kind : TableKind) :
    (s.mapElements f).table kind = (s.table kind).mapElements fun names => f ⟨kind, names⟩ := by
  cases kind <;> rfl

theorem mapElements_congr (h : ∀ kind names e,
    (names, .item (.element e)) ∈ (s.table kind).nodes → f ⟨kind, names⟩ e = g ⟨kind, names⟩ e) :
    s.mapElements f = s.mapElements g := by
  have hsetting := Table.mapElements_congr (h .setting)
  have hstate := Table.mapElements_congr (h .state)
  simp only [table] at hsetting hstate
  rw [mapElements, hsetting, hstate, mapElements]

theorem mapElements_id (s : Session) : s.mapElements (fun _ e => e) = s := by
  rw [mapElements, Table.mapElements_id, Table.mapElements_id]

theorem mapElements_mapElements (hf : ∀ path e, (f path e).info = e.info) :
    (s.mapElements f).mapElements g = s.mapElements fun path e => g path (f path e) := by
  unfold mapElements
  rw [Table.mapElements_mapElements fun names => hf ⟨.setting, names⟩,
    Table.mapElements_mapElements fun names => hf ⟨.state, names⟩]

theorem Distinct.mapElements (h : s.Distinct) (hf : ∀ path e, (f path e).info = e.info) :
    (s.mapElements f).Distinct := by
  intro kind
  rw [mapElements_table]
  exact (h kind).mapElements fun names => hf ⟨kind, names⟩

end Session

end DeviceSchema
