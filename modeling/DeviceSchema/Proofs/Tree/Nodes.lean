import Mathlib.Data.List.Nodup
import DeviceSchema.Proofs.Tree.Changes

/-! # The nodes of a table

A table is a tree of groups, lists and elements.  Its **nodes** are all of them, each
with the names that lead to it from a group on.  What is said of a table as a whole is
said of its nodes: which of them there are, what each is and where.

Names lead to at most one node as long as siblings have different names
(`DistinctSiblings`).  Then looking a path up and searching all nodes agree
(`Table.resolve_iff`), and no path occurs twice (`Table.nodup_paths`).
-/
namespace DeviceSchema

/-- A property of all items follows along their structure. -/
@[elab_as_elim]
theorem Item.induction {P : Item → Prop} (element : ∀ e, P (.element e))
    (list : ∀ head items, (∀ i ∈ items, P i) → P (.list head items)) (i : Item) : P i :=
  @Item.rec P (fun items => ∀ i ∈ items, P i) element list (by simp)
    (fun i rest hi hrest => by simpa using ⟨hi, hrest⟩) i

/-- A node and the names that lead to it. -/
abbrev Placed := List String × Node

mutual

/-- The item at `path` and all that is below it. -/
def Item.nodesAt (path : List String) : Item → List Placed
  | .element e => [(path, .item (.element e))]
  | .list head items => (path, .item (.list head items)) :: Item.nodesBelow path items

/-- The children of the collection at `path` and all that is below them. -/
def Item.nodesBelow (path : List String) : List Item → List Placed
  | [] => []
  | i :: rest => i.nodesAt (path ++ [i.name]) ++ Item.nodesBelow path rest

end

namespace Node

/-- What the node says of itself. -/
def info : Node → Info
  | group g => g.body.head.info
  | item i => i.info

@[simp] theorem collection?_element (e : Element) : (item (.element e)).collection? = none := rfl

@[simp] theorem collection?_list (head : Head) (items : List Item) :
    (item (.list head items)).collection? = some ⟨head, items⟩ := rfl

@[simp] theorem collection?_group (g : Group) : (group g).collection? = some g.body := rfl

end Node

/-- The nodes of a group. -/
def Group.nodes (g : Group) : List Placed :=
  ([g.name], .group g) :: Item.nodesBelow [g.name] g.body.items

/-- The nodes of a table. -/
def Table.nodes (t : Table) : List Placed := t.groups.flatMap Group.nodes

/-- The children of every collection among some nodes have different names. -/
def DistinctSiblings (nodes : List Placed) : Prop :=
  ∀ names node c, (names, node) ∈ nodes → node.collection? = some c →
    (c.items.map Item.name).Nodup

theorem DistinctSiblings.mono {nodes more : List Placed} (h : DistinctSiblings more)
    (hsub : ∀ placed ∈ nodes, placed ∈ more) : DistinctSiblings nodes :=
  fun names node c hn => h names node c (hsub _ hn)

section Below
variable {path : List String}

theorem Item.nodesBelow_eq_flatMap (items : List Item) :
    nodesBelow path items = items.flatMap fun i => i.nodesAt (path ++ [i.name]) := by
  induction items with
  | nil => rw [nodesBelow, List.flatMap_nil]
  | cons i rest ih => rw [nodesBelow, ih, List.flatMap_cons]

@[simp] theorem Item.nodesBelow_append (items more : List Item) :
    nodesBelow path (items ++ more) = nodesBelow path items ++ nodesBelow path more := by
  simp only [nodesBelow_eq_flatMap, List.flatMap_append]

theorem Item.nodesBelow_singleton (i : Item) :
    nodesBelow path [i] = i.nodesAt (path ++ [i.name]) := by
  rw [nodesBelow, nodesBelow, List.append_nil]

theorem Item.name_ofCollection (c : Collection) : (ofCollection c).name = c.head.info.name := rfl

theorem Item.nodesAt_ofCollection (c : Collection) :
    (ofCollection c).nodesAt path =
      (path, .item (.list c.head c.items)) :: nodesBelow path c.items := by
  rw [ofCollection, nodesAt]

theorem Item.mem_nodesBelow {items : List Item} {placed : Placed} :
    placed ∈ nodesBelow path items ↔ ∃ i ∈ items, placed ∈ i.nodesAt (path ++ [i.name]) := by
  rw [nodesBelow_eq_flatMap, List.mem_flatMap]

theorem Item.mem_nodesAt_list {head : Head} {items : List Item} {placed : Placed} :
    placed ∈ (Item.list head items).nodesAt path ↔
      placed = (path, .item (.list head items)) ∨ placed ∈ nodesBelow path items := by
  rw [nodesAt, List.mem_cons]

theorem Item.mem_nodesAt_element {e : Element} {placed : Placed} :
    placed ∈ (Item.element e).nodesAt path ↔ placed = (path, .item (.element e)) := by
  rw [nodesAt, List.mem_singleton]

/-- Whatever is in the item at `path` has a path that goes on from there. -/
theorem Item.path_isPrefix {i : Item} {placed : Placed} (h : placed ∈ i.nodesAt path) :
    path <+: placed.1 := by
  induction i using Item.induction generalizing path with
  | element e =>
    rw [mem_nodesAt_element] at h
    exact h ▸ List.prefix_rfl
  | list head items ih =>
    rcases mem_nodesAt_list.mp h with rfl | h
    · exact List.prefix_rfl
    · obtain ⟨i, hi, h⟩ := mem_nodesBelow.mp h
      exact (List.prefix_append path [i.name]).trans (ih i hi h)

theorem Item.self_mem_nodesAt (i : Item) : (path, .item i) ∈ i.nodesAt path := by
  cases i with
  | element e => exact mem_nodesAt_element.mpr rfl
  | list head items => exact mem_nodesAt_list.mpr (.inl rfl)

/-- Every name in a path is that of a node on the way, from where the path starts. -/
theorem Item.name_mem_path {i : Item} {placed : Placed} (h : placed ∈ i.nodesAt path)
    {name : String} (hname : name ∈ placed.1) :
    name ∈ path ∨ ∃ above ∈ i.nodesAt path, above.2.info.name = name := by
  induction i using Item.induction generalizing path with
  | element e =>
    rw [mem_nodesAt_element] at h
    subst h
    exact .inl hname
  | list head items ih =>
    rcases mem_nodesAt_list.mp h with rfl | h
    · exact .inl hname
    · obtain ⟨i, hi, h⟩ := mem_nodesBelow.mp h
      have hbelow {above : Placed} (ha : above ∈ i.nodesAt (path ++ [i.name])) :
          above ∈ (list head items).nodesAt path :=
        mem_nodesAt_list.mpr (.inr (mem_nodesBelow.mpr ⟨i, hi, ha⟩))
      rcases ih i hi h with hpath | ⟨above, ha, he⟩
      · rcases List.mem_append.mp hpath with hpath | hpath
        · exact .inl hpath
        · rw [List.mem_singleton.mp hpath]
          exact .inr ⟨_, hbelow i.self_mem_nodesAt, rfl⟩
      · exact .inr ⟨above, hbelow ha, he⟩

theorem Item.path_below {items : List Item} {placed : Placed}
    (h : placed ∈ nodesBelow path items) :
    ∃ i ∈ items, placed ∈ i.nodesAt (path ++ [i.name]) ∧
      ∃ rest, placed.1 = path ++ i.name :: rest := by
  obtain ⟨i, hi, h⟩ := mem_nodesBelow.mp h
  obtain ⟨rest, hrest⟩ := path_isPrefix h
  exact ⟨i, hi, h, rest, by rw [← hrest, List.append_assoc, List.singleton_append]⟩

end Below

section Lookup

/-- What is found under a key is an entry that has it. -/
theorem mem_of_find?_key {α : Type} {key : α → String} {xs : List α} {name : String} {x : α}
    (h : xs.find? (fun y => key y = name) = some x) : x ∈ xs ∧ key x = name :=
  ⟨List.mem_of_find?_eq_some h, by simpa using List.find?_some h⟩

/-- Looking a key up in a list of different keys finds what has it. -/
theorem find?_key {α : Type} {key : α → String} {xs : List α} (h : (xs.map key).Nodup)
    {name : String} {x : α} :
    xs.find? (fun y => key y = name) = some x ↔ x ∈ xs ∧ key x = name := by
  constructor
  · exact mem_of_find?_key
  · rintro ⟨hx, rfl⟩
    induction xs with
    | nil => cases hx
    | cons y rest ih =>
      rw [List.map_cons, List.nodup_cons] at h
      rcases List.mem_cons.mp hx with rfl | hx
      · simp
      · have hne : key y ≠ key x := fun he => h.1 (he ▸ List.mem_map_of_mem hx)
        rw [List.find?_cons_of_neg (by simpa using hne)]
        exact ih h.2 hx

/-- What has a new key may be added to a list of different keys. -/
theorem nodup_keys_append {α : Type} {key : α → String} {xs : List α} {x : α}
    (h : (xs.map key).Nodup) (hnew : ∀ y ∈ xs, key y ≠ key x) : ((xs ++ [x]).map key).Nodup := by
  rw [List.map_append, List.nodup_append]
  refine ⟨h, by simp, ?_⟩
  intro a ha b hb
  obtain ⟨y, hy, rfl⟩ := List.mem_map.mp ha
  rw [List.map_singleton, List.mem_singleton] at hb
  exact hb ▸ hnew y hy

theorem Item.find?_eq_some {items : List Item} (h : (items.map name).Nodup) {name : String}
    {i : Item} : find? items name = some i ↔ i ∈ items ∧ i.name = name := find?_key h

theorem Table.group?_eq_some {t : Table} (h : (t.groups.map Group.name).Nodup) {name : String}
    {g : Group} : t.group? name = some g ↔ g ∈ t.groups ∧ g.name = name := find?_key h

theorem Item.walk_append (names more : List String) (i : Item) :
    i.walk (names ++ more) = (i.walk names).bind (walk more) := by
  induction names generalizing i with
  | nil => rfl
  | cons name rest ih =>
    cases i with
    | element e => rfl
    | list head items =>
      rw [List.cons_append, walk, walk]
      cases find? items name with
      | none => rfl
      | some child => exact ih child

theorem DistinctSiblings.list {path : List String} {head : Head} {items : List Item}
    (h : DistinctSiblings ((Item.list head items).nodesAt path)) :
    (items.map Item.name).Nodup ∧ DistinctSiblings (Item.nodesBelow path items) :=
  ⟨h path _ ⟨head, items⟩ (Item.mem_nodesAt_list.mpr (.inl rfl)) rfl,
    h.mono fun _ hp => Item.mem_nodesAt_list.mpr (.inr hp)⟩

theorem DistinctSiblings.child {path : List String} {items : List Item}
    (h : DistinctSiblings (Item.nodesBelow path items)) {i : Item} (hi : i ∈ items) :
    DistinctSiblings (i.nodesAt (path ++ [i.name])) :=
  h.mono fun _ hp => Item.mem_nodesBelow.mpr ⟨i, hi, hp⟩

/-- The nodes in an item are those that names lead to from it. -/
theorem Item.mem_nodesAt_iff {i : Item} {path names : List String} {node : Node}
    (h : DistinctSiblings (i.nodesAt path)) :
    (names, node) ∈ i.nodesAt path ↔
      ∃ rest j, names = path ++ rest ∧ i.walk rest = some j ∧ node = .item j := by
  induction i using Item.induction generalizing path with
  | element e =>
    rw [mem_nodesAt_element, Prod.mk.injEq]
    constructor
    · rintro ⟨rfl, rfl⟩
      exact ⟨[], .element e, by simp, rfl, rfl⟩
    · rintro ⟨rest, j, rfl, hwalk, rfl⟩
      cases rest with
      | nil =>
        cases hwalk
        simp
      | cons name rest => cases hwalk
  | list head items ih =>
    obtain ⟨hdistinct, hbelow⟩ := h.list
    rw [mem_nodesAt_list, Prod.mk.injEq]
    -- Names find the item that they were taken from, as siblings have different ones.
    constructor
    · rintro (⟨rfl, rfl⟩ | hmem)
      · exact ⟨[], .list head items, by simp, rfl, rfl⟩
      · obtain ⟨i, hi, hmem⟩ := mem_nodesBelow.mp hmem
        obtain ⟨rest, j, rfl, hwalk, rfl⟩ := (ih i hi (hbelow.child hi)).mp hmem
        refine ⟨i.name :: rest, j, by simp, ?_, rfl⟩
        rw [walk, (find?_eq_some hdistinct).mpr ⟨hi, rfl⟩, Option.bind_some, hwalk]
    · rintro ⟨rest, j, rfl, hwalk, rfl⟩
      cases rest with
      | nil =>
        cases hwalk
        exact .inl (by simp)
      | cons name rest =>
        rw [walk] at hwalk
        obtain ⟨i, hfind, hrest⟩ := Option.bind_eq_some_iff.mp hwalk
        obtain ⟨hi, rfl⟩ := (find?_eq_some hdistinct).mp hfind
        exact .inr (mem_nodesBelow.mpr ⟨i, hi, (ih i hi (hbelow.child hi)).mpr
          ⟨rest, j, by simp, hrest, rfl⟩⟩)

/-- The nodes below a group are those that names lead to from it. -/
theorem Item.mem_nodesBelow_iff {items : List Item} {path names : List String} {node : Node}
    (hnames : (items.map Item.name).Nodup) (h : DistinctSiblings (nodesBelow path items)) :
    (names, node) ∈ nodesBelow path items ↔
      ∃ child rest i j, names = path ++ child :: rest ∧ find? items child = some i ∧
        i.walk rest = some j ∧ node = .item j := by
  rw [mem_nodesBelow]
  constructor
  · rintro ⟨i, hi, hmem⟩
    obtain ⟨rest, j, rfl, hwalk, rfl⟩ := (mem_nodesAt_iff (h.child hi)).mp hmem
    exact ⟨i.name, rest, i, j, by simp, (find?_eq_some hnames).mpr ⟨hi, rfl⟩, hwalk, rfl⟩
  · rintro ⟨child, rest, i, j, rfl, hfind, hwalk, rfl⟩
    obtain ⟨hi, rfl⟩ := (find?_eq_some hnames).mp hfind
    exact ⟨i, hi, (mem_nodesAt_iff (h.child hi)).mpr ⟨rest, j, by simp, hwalk, rfl⟩⟩

end Lookup

namespace Table

/-- No two groups of a table have the same name, and no two siblings in it. -/
structure Distinct (t : Table) : Prop where
  groups : (t.groups.map Group.name).Nodup
  siblings : DistinctSiblings t.nodes

variable {t : Table} {names : List String} {node : Node}

theorem mem_nodes :
    (names, node) ∈ t.nodes ↔ ∃ g ∈ t.groups,
      (names = [g.name] ∧ node = .group g) ∨
        (names, node) ∈ Item.nodesBelow [g.name] g.body.items := by
  simp only [nodes, Group.nodes, List.mem_flatMap, List.mem_cons, Prod.mk.injEq]

theorem Distinct.body (h : t.Distinct) {g : Group} (hg : g ∈ t.groups) :
    (g.body.items.map Item.name).Nodup ∧
      DistinctSiblings (Item.nodesBelow [g.name] g.body.items) :=
  ⟨h.siblings [g.name] (.group g) g.body (mem_nodes.mpr ⟨g, hg, .inl ⟨rfl, rfl⟩⟩) rfl,
    h.siblings.mono fun _ hp => mem_nodes.mpr ⟨g, hg, .inr hp⟩⟩

/-- **A path leads to a node if and only if the table has the node there.** -/
theorem resolve_iff (h : t.Distinct) : t.resolve names = some node ↔ (names, node) ∈ t.nodes := by
  rw [mem_nodes]
  -- Groups are at paths of one name; what is below them is at longer paths.
  match names with
  | [] =>
    constructor
    · intro hr
      cases hr
    · rintro ⟨g, hg, ⟨hn, -⟩ | hmem⟩
      · cases hn
      · obtain ⟨i, -, -, rest, hrest⟩ := Item.path_below hmem
        cases hrest
  | [group] =>
    rw [resolve, Option.map_eq_some_iff]
    constructor
    · rintro ⟨g, hfind, rfl⟩
      obtain ⟨hg, rfl⟩ := (group?_eq_some h.groups).mp hfind
      exact ⟨g, hg, .inl ⟨rfl, rfl⟩⟩
    · rintro ⟨g, hg, ⟨hn, rfl⟩ | hmem⟩
      · cases hn
        exact ⟨g, (group?_eq_some h.groups).mpr ⟨hg, rfl⟩, rfl⟩
      · obtain ⟨i, -, -, rest, hrest⟩ := Item.path_below hmem
        cases hrest
  | group :: child :: rest =>
    simp only [resolve, Option.bind_eq_bind, Option.bind_eq_some_iff, Collection.find?]
    constructor
    · rintro ⟨g, hfind, i, hchild, j, hwalk, hnode⟩
      obtain ⟨hg, rfl⟩ := (group?_eq_some h.groups).mp hfind
      obtain ⟨hnames, hbelow⟩ := h.body hg
      cases hnode
      exact ⟨g, hg, .inr ((Item.mem_nodesBelow_iff hnames hbelow).mpr
        ⟨child, rest, i, j, rfl, hchild, hwalk, rfl⟩)⟩
    · rintro ⟨g, hg, ⟨hn, -⟩ | hmem⟩
      · cases hn
      · obtain ⟨hnames, hbelow⟩ := h.body hg
        obtain ⟨child, rest, i, j, hn, hchild, hwalk, rfl⟩ :=
          (Item.mem_nodesBelow_iff hnames hbelow).mp hmem
        cases hn
        exact ⟨g, (group?_eq_some h.groups).mpr ⟨hg, rfl⟩, i, hchild, j, hwalk, rfl⟩

/-- Every name in a path is that of a node. -/
theorem name_mem_path {name : String} (h : (names, node) ∈ t.nodes) (hname : name ∈ names) :
    ∃ placed ∈ t.nodes, placed.2.info.name = name := by
  obtain ⟨g, hg, hin⟩ := mem_nodes.mp h
  have hgroup : ([g.name], .group g) ∈ t.nodes := mem_nodes.mpr ⟨g, hg, .inl ⟨rfl, rfl⟩⟩
  rcases hin with ⟨rfl, -⟩ | hbelow
  · rw [List.mem_singleton.mp hname]
    exact ⟨_, hgroup, rfl⟩
  · obtain ⟨i, hi, hi'⟩ := Item.mem_nodesBelow.mp hbelow
    have hnode {above : Placed} (ha : above ∈ i.nodesAt ([g.name] ++ [i.name])) :
        above ∈ t.nodes :=
      mem_nodes.mpr ⟨g, hg, .inr (Item.mem_nodesBelow.mpr ⟨i, hi, ha⟩)⟩
    rcases Item.name_mem_path hi' hname with hpath | ⟨above, ha, he⟩
    · rcases List.mem_append.mp hpath with hpath | hpath
      · rw [List.mem_singleton.mp hpath]
        exact ⟨_, hgroup, rfl⟩
      · rw [List.mem_singleton.mp hpath]
        exact ⟨_, hnode i.self_mem_nodesAt, rfl⟩
    · exact ⟨above, hnode ha, he⟩

/-- No path leads on from an element. -/
theorem eq_of_isPrefix_element (h : t.Distinct) {e : Element} {more : List String}
    (he : (names, .item (.element e)) ∈ t.nodes) (hmore : (more, node) ∈ t.nodes)
    (hleads : names <+: more) : names = more := by
  obtain ⟨rest, rfl⟩ := hleads
  rw [← resolve_iff h] at he hmore
  match names with
  | [] => cases he
  | [group] =>
    obtain ⟨g, -, hg⟩ := Option.map_eq_some_iff.mp he
    cases hg
  | group :: child :: names =>
    simp only [List.cons_append, resolve, Option.bind_eq_bind, Option.bind_eq_some_iff] at he hmore
    obtain ⟨g, hg, i, hi, j, hwalk, hj⟩ := he
    obtain ⟨g', hg', i', hi', j', hwalk', -⟩ := hmore
    cases hj
    -- Both paths go the same way up to the element, and no way leads on from it.
    rw [hg] at hg'
    cases hg'
    rw [hi] at hi'
    cases hi'
    rw [Item.walk_append, hwalk] at hwalk'
    cases rest with
    | nil => rw [List.append_nil]
    | cons next rest => cases hwalk'

end Table

section Paths

/-- Paths that go on from different names after the same path are different. -/
theorem Item.path_ne_of_name_ne {path : List String} {i j : Item} (hne : i.name ≠ j.name)
    {a b : Placed} (ha : a ∈ i.nodesAt (path ++ [i.name])) (hb : b ∈ j.nodesAt (path ++ [j.name])) :
    a.1 ≠ b.1 := by
  obtain ⟨as, has⟩ := path_isPrefix ha
  obtain ⟨bs, hbs⟩ := path_isPrefix hb
  intro he
  rw [← has, ← hbs] at he
  simp only [List.append_assoc, List.singleton_append, List.append_cancel_left_eq,
    List.cons.injEq] at he
  exact hne he.1

theorem Item.nodup_nodesBelow {path : List String} {items : List Item}
    (hnames : (items.map Item.name).Nodup)
    (h : ∀ i ∈ items, ((i.nodesAt (path ++ [i.name])).map Prod.fst).Nodup) :
    ((nodesBelow path items).map Prod.fst).Nodup := by
  rw [nodesBelow_eq_flatMap, List.map_flatMap, List.nodup_flatMap]
  refine ⟨h, (List.pairwise_map.mp hnames).imp ?_⟩
  intro i j hne names hi hj
  obtain ⟨a, ha, rfl⟩ := List.mem_map.mp hi
  obtain ⟨b, hb, hab⟩ := List.mem_map.mp hj
  exact path_ne_of_name_ne hne ha hb hab.symm

theorem Item.nodup_nodesAt {i : Item} {path : List String}
    (h : DistinctSiblings (i.nodesAt path)) : ((i.nodesAt path).map Prod.fst).Nodup := by
  induction i using Item.induction generalizing path with
  | element e => simp [nodesAt]
  | list head items ih =>
    obtain ⟨hnames, hbelow⟩ := h.list
    rw [nodesAt, List.map_cons, List.nodup_cons]
    refine ⟨?_, nodup_nodesBelow hnames fun i hi => ih i hi (hbelow.child hi)⟩
    intro hmem
    obtain ⟨placed, hp, hpath⟩ := List.mem_map.mp hmem
    obtain ⟨i, -, -, rest, hrest⟩ := path_below hp
    have := congrArg List.length (hpath.symm.trans hrest)
    simp at this

theorem Group.nodup_nodes {g : Group} (hnames : (g.body.items.map Item.name).Nodup)
    (h : DistinctSiblings (Item.nodesBelow [g.name] g.body.items)) :
    (g.nodes.map Prod.fst).Nodup := by
  rw [nodes, List.map_cons, List.nodup_cons]
  refine ⟨?_, Item.nodup_nodesBelow hnames fun i hi => Item.nodup_nodesAt (h.child hi)⟩
  intro hmem
  obtain ⟨placed, hp, hpath⟩ := List.mem_map.mp hmem
  obtain ⟨i, -, -, rest, hrest⟩ := Item.path_below hp
  cases hpath.symm.trans hrest

theorem Group.head_of_mem_nodes {g : Group} {placed : Placed} (h : placed ∈ g.nodes) :
    placed.1.head? = some g.name := by
  rcases List.mem_cons.mp h with rfl | h
  · rfl
  · obtain ⟨i, -, -, rest, hrest⟩ := Item.path_below h
    rw [hrest]
    rfl

/-- **Every node has a path of its own.** -/
theorem Table.nodup_paths {t : Table} (h : t.Distinct) : (t.nodes.map Prod.fst).Nodup := by
  rw [nodes, List.map_flatMap, List.nodup_flatMap]
  refine ⟨fun g hg => Group.nodup_nodes (h.body hg).1 (h.body hg).2, ?_⟩
  refine (List.pairwise_map.mp h.groups).imp ?_
  intro g g' hne paths hp hp'
  obtain ⟨a, ha, rfl⟩ := List.mem_map.mp hp
  obtain ⟨b, hb, hab⟩ := List.mem_map.mp hp'
  have hg := Group.head_of_mem_nodes ha
  have hg' := Group.head_of_mem_nodes hb
  rw [hab, hg] at hg'
  exact hne (Option.some.inj hg')

end Paths
namespace Session

/-- The nodes of both tables. -/
def nodes (s : Session) : List Placed := s.setting.nodes ++ s.state.nodes

/-- Both tables are distinct. -/
def Distinct (s : Session) : Prop := ∀ kind, (s.table kind).Distinct

theorem resolve_iff {s : Session} (h : s.Distinct) {path : Path} {node : Node} :
    s.resolve path = some node ↔ (path.names, node) ∈ (s.table path.table).nodes :=
  Table.resolve_iff (h path.table)

end Session
end DeviceSchema
