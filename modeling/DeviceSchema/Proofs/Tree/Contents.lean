import Mathlib.Data.Multiset.MapFold
import DeviceSchema.Proofs.Tree.Lookup

/-! # What a table holds

A table keeps its groups and conditions in the order in which they were declared, and so does
a group its errors.  What they **hold** leaves these orders out (`Group.contents`,
`Table.contents`): two tables that were filled with the same in different orders have the same
contents.  The children of a collection do have an order, which is part of the collection.

The names of groups are keys.  As long as no two groups have the same one (`Table.Keyed`),
contents are all that lookups depend on (`elementAt?_of_contents`), and changing an element
gives tables of the same contents from tables of the same contents
(`updateElement?_of_contents`).  The last section is about changes of two elements, for which
it does not matter which one comes first (`Table.updateElement?_comm`).
-/
namespace DeviceSchema

/-- A group whose errors are in no order. -/
structure Group.Contents where
  body : Collection
  errors : Multiset Notice

/-- A table whose groups and conditions are in no order. -/
structure Table.Contents where
  kind : TableKind
  groups : Multiset Group.Contents
  conditions : Multiset Condition

def Group.contents (g : Group) : Group.Contents := ⟨g.body, g.errors⟩

def Table.contents (t : Table) : Table.Contents :=
  ⟨t.kind, (t.groups : Multiset Group).map Group.contents, t.conditions⟩

theorem Group.contents_eq_iff {g g' : Group} :
    g.contents = g'.contents ↔ g.body = g'.body ∧ g.errors.Perm g'.errors := by
  rw [contents, contents, Contents.mk.injEq, Multiset.coe_eq_coe]

/-- No two groups of the table have the same name. -/
def Table.Keyed (t : Table) : Prop := (t.groups.map Group.name).Nodup

instance (t : Table) : Decidable t.Keyed :=
  inferInstanceAs (Decidable (t.groups.map Group.name).Nodup)

/-- Looking up a key does not depend on the order of the entries. -/
theorem find?_of_perm {α : Type} {key : α → String} {xs ys : List α} (h : xs.Perm ys)
    (hkeys : (xs.map key).Nodup) (name : String) :
    xs.find? (fun x => key x = name) = ys.find? (fun x => key x = name) := by
  refine Option.ext fun x => ?_
  rw [find?_key hkeys, find?_key ((h.map key).nodup_iff.mp hkeys), h.mem_iff]

theorem replaceFirst?_eq_none {α : Type} {key : α → String} {change : α → Option α} {name : String}
    {xs : List α} (h : ∀ x ∈ xs, key x ≠ name) : replaceFirst? key change name xs = none := by
  induction xs with
  | nil => rfl
  | cons x rest ih =>
    rw [List.forall_mem_cons] at h
    rw [replaceFirst?, if_neg h.1, ih h.2, Option.map_none]

namespace Table
variable {t t' : Table}

section Reading

/-- Equal contents are the same groups and conditions in another order. -/
theorem contents_eq_iff : t.contents = t'.contents ↔ t.kind = t'.kind ∧
    (t.groups.map Group.contents).Perm (t'.groups.map Group.contents) ∧
      t.conditions.Perm t'.conditions := by
  simp only [contents, Contents.mk.injEq, Multiset.map_coe, Multiset.coe_eq_coe]

theorem perm_of_contents (h : t.contents = t'.contents) :
    (t.groups.map Group.contents).Perm (t'.groups.map Group.contents) :=
  (contents_eq_iff.mp h).2.1

theorem conditions_of_contents (h : t.contents = t'.contents) :
    t.conditions.Perm t'.conditions := (contents_eq_iff.mp h).2.2

theorem Keyed.contents (h : t.Keyed) :
    ((t.groups.map Group.contents).map fun c => c.body.name).Nodup := by
  rw [List.map_map]
  exact h

theorem Keyed.of_contents (hkeyed : t.Keyed) (h : t.contents = t'.contents) : t'.Keyed := by
  have hnodup := (((perm_of_contents h).map fun c => c.body.name).nodup_iff).mp hkeyed.contents
  rwa [List.map_map] at hnodup

/-- Tables of the same contents have groups of the same contents under a name. -/
theorem group?_of_contents (hkeyed : t.Keyed) (h : t.contents = t'.contents) (name : String) :
    (t.group? name).map Group.contents = (t'.group? name).map Group.contents := by
  have hfind (t : Table) : (t.group? name).map Group.contents =
      (t.groups.map Group.contents).find? fun c => c.body.name = name := by
    rw [group?, List.find?_map]
    rfl
  rw [hfind, hfind, find?_of_perm (perm_of_contents h) hkeyed.contents]

theorem body_of_contents (hkeyed : t.Keyed) (h : t.contents = t'.contents) (name : String) :
    (t.group? name).map Group.body = (t'.group? name).map Group.body := by
  have hbodies := congrArg (Option.map Group.Contents.body) (group?_of_contents hkeyed h name)
  rwa [Option.map_map, Option.map_map] at hbodies

/-- **What a path leads to does not depend on orders.** -/
theorem elementAt?_of_contents (hkeyed : t.Keyed) (h : t.contents = t'.contents)
    (names : List String) : t.elementAt? names = t'.elementAt? names := by
  cases names with
  | nil => rfl
  | cons name rest =>
    have hbind (t : Table) : t.elementAt? (name :: rest) =
        ((t.group? name).map Group.body).bind fun body => Item.elementBelow? rest body.items := by
      rw [elementAt?_cons, Option.bind_map]
      rfl
    rw [hbind, hbind, body_of_contents hkeyed h]

end Reading

section Changing
variable {change : Element → Element}

/-- The table with other items in the group called `name`. -/
def withItems (t : Table) (name : String) (items : List Item) : Table :=
  { t with groups := t.groups.map fun g =>
      if g.name = name then { g with body := { g.body with items } } else g }

theorem Keyed.withItems (h : t.Keyed) (name : String) (items : List Item) :
    (t.withItems name items).Keyed := by
  have hnames : (t.withItems name items).groups.map Group.name = t.groups.map Group.name := by
    rw [Table.withItems, List.map_map]
    refine List.map_congr_left fun g _ => ?_
    rw [Function.comp_apply]
    split <;> rfl
  rw [Keyed, hnames]
  exact h

theorem contents_withItems (h : t.contents = t'.contents) (name : String) (items : List Item) :
    (t.withItems name items).contents = (t'.withItems name items).contents := by
  have hgroups (t : Table) : (t.withItems name items).contents =
      { t.contents with groups := t.contents.groups.map fun c =>
          if c.body.name = name then { c with body := { c.body with items } } else c } := by
    simp only [contents, withItems, Multiset.map_coe, List.map_map]
    congr 2
    refine List.map_congr_left fun g _ => ?_
    by_cases hname : g.body.name = name <;> simp [Group.contents, Group.name, hname]
  rw [hgroups, hgroups, h]

/-- Where names of groups differ, changing an element is a change of the one group that its
path begins with. -/
theorem updateElement?_keyed (hkeyed : t.Keyed) (name : String) (rest : List String) :
    t.updateElement? (name :: rest) change =
      (((t.group? name).map Group.body).bind fun body =>
        Item.updateElement? change rest body.items).map (t.withItems name) := by
  rw [updateElement?, updateGroup?_eq]
  cases hfind : t.group? name with
  | none =>
    have hnone : ∀ g ∈ t.groups, g.name ≠ name := by simpa [group?] using hfind
    rw [replaceFirst?_eq_none hnone]
    rfl
  | some g =>
    obtain ⟨before, after, hgroups, hbefore, hname⟩ := exists_first hfind
    rw [Option.map_some, Option.bind_some]
    cases hitems : Item.updateElement? change rest g.body.items with
    | none =>
      rw [hgroups, replaceFirst?_first hbefore hname, hitems]
      rfl
    | some items =>
      obtain ⟨hg, rfl⟩ := (group?_eq_some hkeyed).mp hfind
      rw [replaceFirst?_eq_map hkeyed hg (F := fun g' =>
        if g'.name = g.name then { g' with body := { g'.body with items } } else g')]
      · rfl
      · rw [hitems, if_pos rfl]
        rfl
      · exact fun g' _ hne => if_neg hne

theorem Keyed.updateElement? (hkeyed : t.Keyed) {names : List String} {t₁ : Table}
    (h : t.updateElement? names change = some t₁) : t₁.Keyed := by
  cases names with
  | nil => cases h
  | cons name rest =>
    rw [updateElement?_keyed hkeyed] at h
    obtain ⟨items, -, rfl⟩ := Option.map_eq_some_iff.mp h
    exact hkeyed.withItems name items

/-- **Changing an element of tables of the same contents gives tables of the same contents.** -/
theorem updateElement?_of_contents (hkeyed : t.Keyed) (h : t.contents = t'.contents)
    {names : List String} {t₁ : Table} (h₁ : t.updateElement? names change = some t₁) :
    ∃ t₂, t'.updateElement? names change = some t₂ ∧ t₁.contents = t₂.contents := by
  cases names with
  | nil => cases h₁
  | cons name rest =>
    rw [updateElement?_keyed hkeyed, body_of_contents hkeyed h] at h₁
    obtain ⟨items, hitems, rfl⟩ := Option.map_eq_some_iff.mp h₁
    rw [updateElement?_keyed (hkeyed.of_contents h), hitems]
    exact ⟨_, rfl, contents_withItems h name items⟩

end Changing
end Table

/-! ## Two changes in turn -/
section Exchanging

section Entries
variable {α : Type} {key : α → String} {f g : α → Option α} {a b : String} {x : α} {rest : List α}

/-- A change keeps the keys of entries. -/
def KeepsKey (key : α → String) (change : α → Option α) : Prop :=
  ∀ x y, change x = some y → key y = key x

/-- Two changes of the same first entry. -/
theorem replaceFirst?_both (hf : KeepsKey key f) (ha : key x = a) :
    (replaceFirst? key f a (x :: rest)).bind (replaceFirst? key g a) =
      ((f x).bind g).map (· :: rest) := by
  rw [replaceFirst?, if_pos ha]
  cases hfx : f x with
  | none => rfl
  | some y =>
    rw [Option.map_some, Option.bind_some, replaceFirst?, if_pos ((hf x y hfx).trans ha),
      Option.bind_some]

/-- A change of the first entry and one of a later entry. -/
theorem replaceFirst?_first_later (hf : KeepsKey key f) (ha : key x = a) (hb : key x ≠ b) :
    (replaceFirst? key f a (x :: rest)).bind (replaceFirst? key g b) =
      (replaceFirst? key g b (x :: rest)).bind (replaceFirst? key f a) := by
  rw [replaceFirst?, if_pos ha, replaceFirst?, if_neg hb]
  cases hfx : f x with
  | none => cases replaceFirst? key g b rest with
    | none => rfl
    | some later => simp [replaceFirst?, ha, hfx]
  | some y =>
    have hy : key y ≠ b := hf x y hfx ▸ hb
    cases hlater : replaceFirst? key g b rest with
    | none => simp [replaceFirst?, hy, hlater]
    | some later => simp [replaceFirst?, ha, hfx, hy, hlater]

/-- Two changes of entries can be exchanged if they can where both are about one key. -/
theorem replaceFirst?_comm (hf : KeepsKey key f) (hg : KeepsKey key g)
    (hcomm : a = b → ∀ x, (f x).bind g = (g x).bind f) (xs : List α) :
    (replaceFirst? key f a xs).bind (replaceFirst? key g b) =
      (replaceFirst? key g b xs).bind (replaceFirst? key f a) := by
  induction xs with
  | nil => rfl
  | cons x rest ih =>
    by_cases ha : key x = a <;> by_cases hb : key x = b
    · obtain rfl : a = b := ha.symm.trans hb
      rw [replaceFirst?_both hf ha, replaceFirst?_both hg ha, hcomm rfl]
    · exact replaceFirst?_first_later hf ha hb
    · exact (replaceFirst?_first_later hg hb ha).symm
    · have hskip (f g : α → Option α) (a b : String) (ha : key x ≠ a) (hb : key x ≠ b) :
          (replaceFirst? key f a (x :: rest)).bind (replaceFirst? key g b) =
            ((replaceFirst? key f a rest).bind (replaceFirst? key g b)).map (x :: ·) := by
        rw [replaceFirst?, if_neg ha]
        cases replaceFirst? key f a rest with
        | none => rfl
        | some later =>
          rw [Option.map_some, Option.bind_some, replaceFirst?, if_neg hb, Option.bind_some]
      rw [hskip f g a b ha hb, hskip g f b a hb ha, ih]

end Entries

variable {c d : Element → Element}

/-- The change of an item, or of what further names lead to from it. -/
def Item.updateFrom? (change : Element → Element) (names : List String) : Item → Option Item
  | element e => if names.isEmpty then some (element (change e)) else none
  | list head items => (updateElement? change names items).map (list head)

theorem Item.updateElement?_cons (change : Element → Element) (name : String)
    (rest : List String) (items : List Item) :
    updateElement? change (name :: rest) items =
      replaceFirst? Item.name (updateFrom? change rest) name items := by
  cases rest with
  | nil =>
    rw [updateElement?, update?_eq]
    congr 1
    funext i
    cases i <;> rfl
  | cons next rest =>
    rw [updateElement?, update?_eq]
    · congr 1
      funext i
      cases i <;> rfl
    · simp

theorem Item.keepsKey_updateFrom? (hc : ∀ e, (c e).info = e.info) (names : List String) :
    KeepsKey Item.name (updateFrom? c names) := by
  intro i j h
  cases i with
  | element e =>
    rw [updateFrom?] at h
    split at h
    · cases h
      exact congrArg Info.name (hc e)
    · cases h
  | list head items =>
    obtain ⟨items', -, rfl⟩ := Option.map_eq_some_iff.mp h
    rfl

/-- Two changes of elements can be exchanged if they can where both are about one element. -/
theorem Item.updateElement?_comm (hc : ∀ e, (c e).info = e.info) (hd : ∀ e, (d e).info = e.info)
    {names names' : List String} (h : names = names' → ∀ e, d (c e) = c (d e))
    (items : List Item) :
    (updateElement? c names items).bind (updateElement? d names') =
      (updateElement? d names' items).bind (updateElement? c names) := by
  induction names generalizing names' items with
  | nil => cases updateElement? d names' items <;> rfl
  | cons name rest ih =>
    cases names' with
    | nil => cases updateElement? c (name :: rest) items <;> rfl
    | cons name' rest' =>
      rw [funext (updateElement?_cons c name rest), funext (updateElement?_cons d name' rest')]
      refine replaceFirst?_comm (keepsKey_updateFrom? hc rest) (keepsKey_updateFrom? hd rest')
        ?_ items
      rintro rfl i
      have hrest : rest = rest' → ∀ e, d (c e) = c (d e) := fun he => h (he ▸ rfl)
      cases i with
      | element e =>
        cases rest with
        | nil =>
          cases rest' with
          | nil => exact congrArg (some ∘ element) (hrest rfl e)
          | cons next' rest' => rfl
        | cons next rest => cases rest' <;> rfl
      | list head children =>
        have hinside (c d : Element → Element) (rest rest' : List String) :
            (updateFrom? c rest (list head children)).bind (updateFrom? d rest') =
              ((updateElement? c rest children).bind (updateElement? d rest')).map (list head) := by
          rw [updateFrom?]
          cases updateElement? c rest children <;> rfl
        rw [hinside, hinside, ih hrest]

/-- The change of the element that names lead to from a group. -/
def Group.updateElement? (change : Element → Element) (names : List String) (g : Group) :
    Option Group :=
  (Item.updateElement? change names g.body.items).map fun items =>
    { g with body := { g.body with items } }

theorem Group.keepsKey_updateElement? (c : Element → Element) (names : List String) :
    KeepsKey Group.name (updateElement? c names) := by
  intro g g' h
  obtain ⟨items, -, rfl⟩ := Option.map_eq_some_iff.mp h
  rfl

theorem Group.updateElement?_comm (hc : ∀ e, (c e).info = e.info) (hd : ∀ e, (d e).info = e.info)
    {names names' : List String} (h : names = names' → ∀ e, d (c e) = c (d e)) (g : Group) :
    (g.updateElement? c names).bind (updateElement? d names') =
      (g.updateElement? d names').bind (updateElement? c names) := by
  have hitems (c d : Element → Element) (names names' : List String) :
      (g.updateElement? c names).bind (updateElement? d names') =
        ((Item.updateElement? c names g.body.items).bind (Item.updateElement? d names')).map
          fun items => { g with body := { g.body with items } } := by
    rw [updateElement?]
    cases Item.updateElement? c names g.body.items <;> rfl
  rw [hitems, hitems, Item.updateElement?_comm hc hd h]

theorem Table.updateElement?_cons (change : Element → Element) (name : String)
    (rest : List String) (t : Table) :
    t.updateElement? (name :: rest) change =
      (replaceFirst? Group.name (Group.updateElement? change rest) name t.groups).map
        fun groups => { t with groups } := by
  rw [updateElement?, updateGroup?_eq]
  rfl

/-- Two changes of elements of a table can be exchanged if they can where both are about one
element. -/
theorem Table.updateElement?_comm (hc : ∀ e, (c e).info = e.info)
    (hd : ∀ e, (d e).info = e.info) {names names' : List String}
    (h : names = names' → ∀ e, d (c e) = c (d e)) (t : Table) :
    (t.updateElement? names c).bind (·.updateElement? names' d) =
      (t.updateElement? names' d).bind (·.updateElement? names c) := by
  cases names with
  | nil => cases t.updateElement? names' d <;> rfl
  | cons name rest =>
    cases names' with
    | nil => cases t.updateElement? (name :: rest) c <;> rfl
    | cons name' rest' =>
      have hgroups (c d : Element → Element) (name name' : String) (rest rest' : List String) :
          (t.updateElement? (name :: rest) c).bind (·.updateElement? (name' :: rest') d) =
            ((replaceFirst? Group.name (Group.updateElement? c rest) name t.groups).bind
              (replaceFirst? Group.name (Group.updateElement? d rest') name')).map
                fun groups => { t with groups } := by
        simp only [updateElement?_cons]
        cases replaceFirst? Group.name (Group.updateElement? c rest) name t.groups <;> rfl
      rw [hgroups, hgroups, replaceFirst?_comm (Group.keepsKey_updateElement? c rest)
        (Group.keepsKey_updateElement? d rest')]
      rintro rfl g
      exact g.updateElement?_comm hc hd fun he => h (congrArg (name :: ·) he)

end Exchanging
end DeviceSchema
