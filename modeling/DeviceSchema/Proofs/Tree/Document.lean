import DeviceSchema.Proofs.Json.Sameness
import DeviceSchema.Proofs.Tree.Contents
import DeviceSchema.Proofs.Writing.Values
import DeviceSchema.Tree.Document

/-! # What the published document tells

Several records are written into one object: what an item says of itself stands among the members of
an element or a list, a predicate among those of the condition that has it, and the body of a group
among those of the group.  Parts that say nothing are left out.  No two members of an object have
the same name for all that, and nothing that is left out can be mistaken for something that is
there.

To see this, each record is read off as a row of **slots**, with those of the records in it in
between (`Element.slots`).  The slots of two records agree if and only if the records are equal, so
the published JSON is faithful to elements and lists.  Groups and tables have maps from names, whose
order is not told (`Group.Same`, `Table.Same`); `Table.same_document_iff` puts all together.  Tables
that are the same in this sense are those of the same contents (`Table.same_iff_contents`), since
names that are added to a registry are new there (`Table.Registered`).
-/
namespace DeviceSchema
open Json

section Words

/-- Choices have different words if each is read back from its own. -/
theorem injective_of_read {α β : Type} {word : α → String} {read : String → β} {found : α → β}
    (hfound : found.Injective) (hread : ∀ a, read (word a) = found a) : word.Injective :=
  fun a b heq => hfound (by rw [← hread, heq, hread])

theorem TableKind.word_injective : Function.Injective word :=
  injective_of_read (Option.some_injective _) ofWord?_word

theorem Access.word_injective : Function.Injective word :=
  injective_of_read (fun _ _ => Except.ok.inj) ofText_word

theorem ValueType.word_injective : Function.Injective word :=
  injective_of_read (fun _ _ => Except.ok.inj) ofText_word

theorem CaseRule.word_injective : Function.Injective word :=
  injective_of_read (Option.some_injective _) ofWord?_word

theorem Capacity.word_injective : Function.Injective word :=
  injective_of_read (Option.some_injective _) ofWord?_word

/-- A choice is written as its word. -/
theorem Json.faithful_word {α : Type} {word : α → String} (h : word.Injective) :
    Faithful Eq fun a => .text (word a) := faithful_text.comp h

end Words

section Members
variable {α : Type} {name : String}

theorem Json.member?_eq_filled (value : Option α) (write : α → Json) :
    member? name value write = filled [(name, value.map write)] := by
  cases value <;> rfl

theorem Json.listMember?_eq_filled (values : List α) (write : α → Json) :
    listMember? name values write =
      filled [(name, if values.isEmpty then none else some (.list (values.map write)))] := by
  unfold listMember?
  split <;> rfl

/-- A list that is left out where it is empty. -/
theorem Json.Faithful.listSlot_iff {write : α → Json} (h : Faithful Eq write) {xs ys : List α} :
    Option.Rel (fun v w => same v w = true)
      (if xs.isEmpty then none else some (.list (xs.map write)))
      (if ys.isEmpty then none else some (.list (ys.map write))) ↔ xs = ys := by
  refine h.list.slotUnless_iff (fun hx hy => ?_) fun heq => heq ▸ rfl
  rw [List.isEmpty_iff.mp hx, List.isEmpty_iff.mp hy]

end Members

section Conditions

def Path.slots (p : Path) : Slots :=
  [("table", some (.text p.table.word)), ("path", some (texts p.names))]

theorem Path.row : Row ["table", "path"] Eq slots where
  names _ := rfl
  agree p q := by
    cases p
    cases q
    simp [slots, agree_cons_iff, agree_nil,
      (faithful_word TableKind.word_injective).slot_iff, faithful_texts.slot_iff]

theorem Path.toJson_faithful : Faithful Eq toJson :=
  row.faithful (by decide) fun _ => rfl

def Predicate.slotNames : List String := ["operation", "value", "pattern", "case"]

/-- The value of one kind of predicate and the pattern of the other have slots of their own. -/
def Predicate.slots : Predicate → Slots
  | equals value =>
    [("operation", some (.text Operation.equals.word)), ("value", some (.text value)),
      ("pattern", none), ("case", none)]
  | matchesPattern pattern caseRule =>
    [("operation", some (.text Operation.regex.word)), ("value", none),
      ("pattern", some (.text pattern)), ("case", some (.text caseRule.word))]

theorem Predicate.row : Row slotNames Eq slots where
  names p := by cases p <;> rfl
  agree p q := by
    cases p <;> cases q <;>
      simp [slots, agree_cons_iff, agree_nil, same_text_iff, CaseRule.word_injective.eq_iff]

theorem Predicate.members_eq_filled (p : Predicate) : p.members = filled p.slots := by
  cases p <;> rfl

def Condition.slots (c : Condition) : Slots :=
  ("name", some (.text c.name)) :: ("source", some c.source.toJson) :: c.predicate.slots

theorem Condition.row : Row ("name" :: "source" :: Predicate.slotNames) Eq slots where
  names c := by rw [slots, List.map_cons, List.map_cons, Predicate.row.names]
  agree c d := by
    cases c
    cases d
    simp [slots, agree_cons_iff, Predicate.row.agree, faithful_text.slot_iff,
      Path.toJson_faithful.slot_iff]

theorem Condition.toJson_faithful : Faithful Eq toJson :=
  row.faithful (by decide) fun c => by rw [toJson, Predicate.members_eq_filled]; rfl

def Attachment.slots (a : Attachment) : Slots :=
  ("name", some (.text a.name)) :: ("reference", some (.text a.reference)) :: a.predicate.slots

theorem Attachment.row : Row ("name" :: "reference" :: Predicate.slotNames) Eq slots where
  names a := by rw [slots, List.map_cons, List.map_cons, Predicate.row.names]
  agree a b := by
    cases a
    cases b
    simp [slots, agree_cons_iff, Predicate.row.agree, faithful_text.slot_iff]

theorem Attachment.toJson_faithful : Faithful Eq toJson :=
  row.faithful (by decide) fun a => by rw [toJson, Predicate.members_eq_filled]; rfl

end Conditions

section Elements

def Info.slotNames : List String := ["name", "description", "help", "access", "condition"]

def Info.slots (info : Info) : Slots :=
  [("name", some (.text info.name)), ("description", some (.text info.description)),
    ("help", info.help.map .text), ("access", info.access.map fun access => .text access.word),
    ("condition", info.condition.map Attachment.toJson)]

theorem Info.row : Row slotNames Eq slots where
  names _ := rfl
  agree info info' := by
    cases info
    cases info'
    simp [slots, agree_cons_iff, agree_nil, faithful_text.slot_iff, faithful_text.slot?_iff,
      (faithful_word Access.word_injective).slot?_iff, Attachment.toJson_faithful.slot?_iff]

theorem Info.members_eq_filled (info : Info) : info.members = filled info.slots := by
  simp only [members, member?_eq_filled, List.append_assoc, ← filled_append]
  rfl

theorem Info.toJson_faithful : Faithful Eq toJson :=
  row.faithful (by decide) fun info => by rw [toJson, members_eq_filled]

def PatternRule.slots (rule : PatternRule) : Slots :=
  [("pattern", rule.pattern.map .text),
    ("case", rule.caseRule.map fun caseRule => .text caseRule.word),
    ("syntax", rule.wording.map .text)]

theorem PatternRule.row : Row ["pattern", "case", "syntax"] Eq slots where
  names _ := rfl
  agree rule rule' := by
    cases rule
    cases rule'
    simp [slots, agree_cons_iff, agree_nil, faithful_text.slot?_iff,
      (faithful_word CaseRule.word_injective).slot?_iff]

theorem PatternRule.members_eq_filled (rule : PatternRule) : rule.members = filled rule.slots := by
  simp only [members, member?_eq_filled, List.append_assoc, ← filled_append]
  rfl

theorem PatternRule.faithful_members : Faithful Eq fun rule : PatternRule => .object rule.members :=
  row.faithful (by decide) fun rule => by rw [members_eq_filled]

/-- There is only one rule in which nothing is declared. -/
theorem PatternRule.eq_of_isEmpty {rule rule' : PatternRule} (h : rule.isEmpty = true)
    (h' : rule'.isEmpty = true) : rule = rule' := by
  cases rule
  cases rule'
  simp_all [isEmpty]

def Element.slotNames : List String :=
  Info.slotNames ++ ["type", "min", "max", "default", "units", "regex", "values", "refs"]

def Element.slots (e : Element) : Slots :=
  e.info.slots ++
    [("type", some (text? (e.type.map ValueType.word))), ("min", e.min.map .text),
      ("max", e.max.map .text), ("default", e.default.map .text), ("units", e.units.map .text),
      ("regex", if e.rule.isEmpty then none else some (.object e.rule.members)),
      ("values", if e.values.isEmpty then none else some (.list (e.values.map Info.toJson))),
      ("refs", if e.references.isEmpty then none else some (.list (e.references.map Info.toJson)))]

theorem Element.row : Row slotNames Eq slots where
  names e := by rw [slots, List.map_append, Info.row.names]; rfl
  agree e f := by
    have hrule : Option.Rel (fun v w => same v w = true)
        (if e.rule.isEmpty then none else some (.object e.rule.members))
        (if f.rule.isEmpty then none else some (.object f.rule.members)) ↔ e.rule = f.rule :=
      PatternRule.faithful_members.slotUnless_iff PatternRule.eq_of_isEmpty fun h => h ▸ rfl
    rw [slots, slots, agree_append_iff (Info.row.length_eq _ _), Info.row.agree]
    simp only [agree_cons_iff, agree_nil, hrule, faithful_text.slot?_iff,
      (faithful_word? ValueType.word_injective).slot_iff, Info.toJson_faithful.listSlot_iff]
    cases e
    cases f
    simp

theorem Element.members_eq_filled (e : Element) : e.members = filled e.slots := by
  have hrule : (if e.rule.isEmpty then [] else [("regex", .object e.rule.members)]) =
      filled [("regex", if e.rule.isEmpty then none else some (.object e.rule.members))] := by
    split <;> rfl
  have htype (v : Json) : [("type", v)] = filled [("type", some v)] := rfl
  simp only [members, Info.members_eq_filled, hrule, htype, member?_eq_filled,
    listMember?_eq_filled, List.append_assoc, ← filled_append]
  rfl

theorem Element.toJson_faithful : Faithful Eq toJson :=
  row.faithful (by decide) fun e => by rw [toJson, members_eq_filled]

end Elements

section Items

def Head.slotNames : List String := Info.slotNames ++ ["instances", "keys", "capacity"]

def Head.slots (h : Head) : Slots :=
  h.info.slots ++
    [("instances", h.instances.map count), ("keys", h.keys.map texts),
      ("capacity", some (text? (h.capacity.map Capacity.word)))]

theorem Head.row : Row slotNames Eq slots where
  names h := by rw [slots, List.map_append, Info.row.names]; rfl
  agree h h' := by
    rw [slots, slots, agree_append_iff (Info.row.length_eq _ _), Info.row.agree]
    simp only [agree_cons_iff, agree_nil, faithful_count.slot?_iff, faithful_texts.slot?_iff,
      (faithful_word? Capacity.word_injective).slot_iff]
    cases h
    cases h'
    simp

theorem Head.members_eq_filled (h : Head) : h.members = filled h.slots := by
  have hcapacity (v : Json) : [("capacity", v)] = filled [("capacity", some v)] := rfl
  simp only [members, Info.members_eq_filled, hcapacity, member?_eq_filled, List.append_assoc,
    ← filled_append]
  rfl

theorem Item.allToJson_eq_map (items : List Item) : allToJson items = items.map toJson := by
  induction items with
  | nil => rfl
  | cons i rest ih => rw [allToJson, ih, List.map_cons]

def Collection.slotNames : List String := Head.slotNames ++ ["items"]

def Collection.slots (c : Collection) : Slots :=
  c.head.slots ++ [("items", some (.list (c.items.map Item.toJson)))]

theorem Collection.names_slots (c : Collection) : c.slots.map Prod.fst = slotNames := by
  rw [slots, List.map_append, Head.row.names]
  rfl

/-- The slots of collections agree exactly if these are equal, as long as that is known of their
children. -/
theorem Collection.agree_iff {c d : Collection}
    (h : ∀ i ∈ c.items, ∀ j, same i.toJson j.toJson = true ↔ i = j) :
    Agree c.slots d.slots ↔ c = d := by
  rw [slots, slots, agree_append_iff (Head.row.length_eq _ _), Head.row.agree, agree_cons_iff,
    Option.rel_some_some, same_list_map_iff h]
  cases c
  cases d
  simp [agree_nil]

theorem Collection.members_eq_filled (c : Collection) : c.members = filled c.slots := by
  rw [members, slots, Item.allToJson_eq_map, Head.members_eq_filled, filled_append]
  rfl

/-- An item has the slots of what it is and says in one more of what kind that is. -/
def Item.slots : Item → Slots
  | element e => ("kind", some (.text "element")) :: e.slots
  | list head items => ("kind", some (.text "list")) :: Collection.slots ⟨head, items⟩

theorem Item.toJson_eq_filled (i : Item) : i.toJson = .object (filled i.slots) := by
  cases i with
  | element e => rw [toJson, slots, filled_cons, Element.members_eq_filled]; rfl
  | list head items =>
    rw [toJson, slots, filled_cons, ← Collection.members_eq_filled]
    rfl

theorem Item.toJson_faithful : Faithful Eq toJson := by
  intro i
  induction i using Item.induction with
  | element e =>
    intro j
    rw [toJson_eq_filled, toJson_eq_filled]
    cases j with
    | element f =>
      have hnames (e : Element) : (element e).slots.map Prod.fst =
          "kind" :: Element.slotNames := by
        rw [slots, List.map_cons, Element.row.names]
      rw [same_filled_iff _ (hnames e) (hnames f) (by decide), slots, slots, agree_cons_iff,
        faithful_text.slot_iff, Element.row.agree]
      simp
    | list head items =>
      refine iff_of_false (fun h => ?_) (by simp)
      exact absurd (same_text_iff.mp (same_of_same_filled_cons h)) (by decide)
  | list head items ih =>
    intro j
    rw [toJson_eq_filled, toJson_eq_filled]
    cases j with
    | element f =>
      refine iff_of_false (fun h => ?_) (by simp)
      exact absurd (same_text_iff.mp (same_of_same_filled_cons h)) (by decide)
    | list head' items' =>
      have hnames (head : Head) (items : List Item) :
          (list head items).slots.map Prod.fst = "kind" :: Collection.slotNames := by
        rw [slots, List.map_cons, Collection.names_slots]
      rw [same_filled_iff _ (hnames head items) (hnames head' items') (by decide), slots, slots,
        agree_cons_iff, faithful_text.slot_iff, Collection.agree_iff ih]
      simp

theorem Collection.row : Row slotNames Eq slots where
  names := names_slots
  agree _ _ := agree_iff fun i _ j => Item.toJson_faithful i j

theorem Collection.faithful_members : Faithful Eq fun c : Collection => .object c.members :=
  row.faithful (by decide) fun c => by rw [members_eq_filled]

end Items

section Registries

/-- Two groups are the same if they are equal but for the order of their errors. -/
def Group.Same (g g' : Group) : Prop :=
  g.body = g'.body ∧
    SameEntries Notice.name (fun n n' => n.description = n'.description) g.errors g'.errors

/-- Two tables are the same if they have the same groups and conditions in whatever order. -/
def Table.Same (t t' : Table) : Prop :=
  t.kind = t'.kind ∧ SameEntries Group.name Group.Same t.groups t'.groups ∧
    SameEntries Condition.name Eq t.conditions t'.conditions

theorem Notice.allToJson_faithful :
    Faithful (SameEntries name fun n n' => n.description = n'.description) allToJson := by
  have hdescription : Faithful (fun n n' => n.description = n'.description)
      fun n : Notice => .text n.description := fun _ _ => same_text_iff
  exact hdescription.entries name

def Group.slots (g : Group) : Slots :=
  g.body.slots ++
    [("errors", if g.errors.isEmpty then none else some (Notice.allToJson g.errors))]

theorem Group.row : Row (Collection.slotNames ++ ["errors"]) Same slots where
  names g := by rw [slots, List.map_append, Collection.row.names]; rfl
  agree g g' := by
    rw [slots, slots, agree_append_iff (Collection.row.length_eq _ _), Collection.row.agree,
      agree_cons_iff, and_iff_left agree_nil]
    refine and_congr_right fun _ => Notice.allToJson_faithful.slotUnless_iff (fun hg hg' => ?_)
      fun h => ?_
    · rw [List.isEmpty_iff.mp hg, List.isEmpty_iff.mp hg']
      simp [SameEntries]
    · rw [Bool.eq_iff_iff, List.isEmpty_iff_length_eq_zero, List.isEmpty_iff_length_eq_zero, h.1]

theorem Group.toJson_faithful : Faithful Same toJson := by
  refine row.faithful (by decide) fun g => ?_
  rw [toJson, slots, filled_append, Collection.members_eq_filled]
  split <;> rfl

def Table.slots (t : Table) : Slots :=
  [("table_type", some (.text t.kind.word)),
    ("groups", some (.object (t.groups.map fun g => (g.name, g.toJson)))),
    ("conditions", some (.object (t.conditions.map fun c => (c.name, c.toJson))))]

theorem Table.row : Row ["table_type", "groups", "conditions"] Same slots where
  names _ := rfl
  agree t t' := by
    simp only [slots, Same, agree_cons_iff, agree_nil, and_true,
      (faithful_word TableKind.word_injective).slot_iff,
      (Group.toJson_faithful.entries Group.name).slot_iff,
      (Condition.toJson_faithful.entries Condition.name).slot_iff]

theorem Table.toJson_faithful : Faithful Same toJson :=
  row.faithful (by decide) fun _ => rfl

/-- **What is published loses nothing.**  Two elements, items, collections, groups or tables have
the same JSON, whatever the order of members, exactly if they are equal, where groups, conditions
and errors count as maps from their names. -/
theorem Table.same_document_iff :
    (∀ e f : Element, same e.toJson f.toJson = true ↔ e = f) ∧
      (∀ i j : Item, same i.toJson j.toJson = true ↔ i = j) ∧
      (∀ c d : Collection, same (.object c.members) (.object d.members) = true ↔ c = d) ∧
      (∀ g g' : Group, same g.toJson g'.toJson = true ↔ g.Same g') ∧
      ∀ t t' : Table, same t.toJson t'.toJson = true ↔ t.Same t' :=
  ⟨Element.toJson_faithful, Item.toJson_faithful, Collection.faithful_members,
    Group.toJson_faithful, Table.toJson_faithful⟩

end Registries

section Orders
variable {α β : Type} {name : α → String} {alike : α → α → Prop} {content : α → β}
  {xs ys : List α}

/-- Where names differ, two lists are the same map exactly if one has the contents of the other in
some order. -/
theorem sameEntries_iff_perm (hxs : (xs.map name).Nodup) (hys : (ys.map name).Nodup)
    (hname : ∀ x y, content x = content y → name x = name y)
    (halike : ∀ x ∈ xs, ∀ y ∈ ys, name x = name y → (alike x y ↔ content x = content y)) :
    SameEntries name alike xs ys ↔ (xs.map content).Perm (ys.map content) := by
  constructor
  · rintro ⟨hlength, hfound⟩
    have hnodup : (xs.map content).Nodup :=
      List.pairwise_map.mpr <|
        (List.pairwise_map.mp hxs).imp fun hne heq => hne (hname _ _ heq)
    have hsubset : xs.map content ⊆ ys.map content := by
      intro b hb
      obtain ⟨x, hx, rfl⟩ := List.mem_map.mp hb
      obtain ⟨y, hy, hxy⟩ := hfound x hx
      obtain ⟨hmem, hkey⟩ := (find?_key hys).mp hy
      exact List.mem_map.mpr ⟨y, hmem, ((halike x hx y hmem hkey.symm).mp hxy).symm⟩
    exact (List.subperm_of_subset hnodup hsubset).perm_of_length_le (by simp [hlength])
  · intro hperm
    refine ⟨by simpa using hperm.length_eq, fun x hx => ?_⟩
    obtain ⟨y, hmem, hyx⟩ := List.mem_map.mp (hperm.mem_iff.mp (List.mem_map_of_mem hx))
    have hkey := hname _ _ hyx
    exact ⟨y, (find?_key hys).mpr ⟨hmem, hkey⟩, (halike x hx y hmem hkey.symm).mpr hyx.symm⟩

theorem Group.same_iff_contents {g g' : Group} (h : (g.errors.map Notice.name).Nodup)
    (h' : (g'.errors.map Notice.name).Nodup) : g.Same g' ↔ g.contents = g'.contents := by
  rw [Same, contents_eq_iff, sameEntries_iff_perm h h' (fun _ _ => congrArg Notice.name),
    List.map_id', List.map_id']
  rintro ⟨_, _⟩ _ ⟨_, _⟩ _ rfl
  simp

end Orders

section Registered
variable {t t' : Table}

/-- No two groups have the same name, nor two conditions or two errors of one group. -/
structure Table.Registered (t : Table) : Prop where
  groups : t.Keyed
  conditions : (t.conditions.map Condition.name).Nodup
  errors : ∀ g ∈ t.groups, (g.errors.map Notice.name).Nodup

theorem Group.nodup_addError {g g' : Group} {name : String} {description : Option String}
    (h : (g.errors.map Notice.name).Nodup) (hadd : g.addError name description = .ok () g') :
    (g'.errors.map Notice.name).Nodup := by
  obtain ⟨text, hnew, -, rfl⟩ := addError_ok_iff.mp hadd
  exact nodup_keys_append h hnew

namespace Table

theorem registered_empty (kind : TableKind) : Registered { kind } :=
  ⟨List.nodup_nil, List.nodup_nil, fun _ hg => absurd hg List.not_mem_nil⟩

theorem Registered.addGroup (h : t.Registered) {group : Group}
    (herrors : (group.errors.map Notice.name).Nodup) (hadd : t.addGroup group = .ok () t') :
    t'.Registered := by
  obtain ⟨hnew, rfl⟩ := addGroup_ok_iff.mp hadd
  refine ⟨nodup_keys_append h.groups hnew, h.conditions, fun g hg => ?_⟩
  rcases List.mem_append.mp hg with hold | hlast
  · exact h.errors g hold
  · exact List.mem_singleton.mp hlast ▸ herrors

theorem Registered.addCondition (h : t.Registered) {condition : Condition}
    (hadd : t.addCondition condition = .ok () t') : t'.Registered := by
  obtain ⟨hnew, rfl⟩ := addCondition_ok_iff.mp hadd
  exact ⟨h.groups, nodup_keys_append h.conditions hnew, h.errors⟩

/-- Tables with different names in each of their registries are the same exactly if they have the
same contents. -/
theorem same_iff_contents (h : t.Registered) (h' : t'.Registered) :
    t.Same t' ↔ t.contents = t'.contents := by
  have hgroups : SameEntries Group.name Group.Same t.groups t'.groups ↔
      (t.groups.map Group.contents).Perm (t'.groups.map Group.contents) :=
    sameEntries_iff_perm h.groups h'.groups
      (fun _ _ hcontents => congrArg (fun c => c.body.name) hcontents)
      fun g hg g' hg' _ => Group.same_iff_contents (h.errors g hg) (h'.errors g' hg')
  have hconditions : SameEntries Condition.name Eq t.conditions t'.conditions ↔
      (t.conditions.map id).Perm (t'.conditions.map id) :=
    sameEntries_iff_perm h.conditions h'.conditions (fun _ _ => congrArg Condition.name)
      fun _ _ _ _ _ => Iff.rfl
  rw [Same, contents_eq_iff, hgroups, hconditions, List.map_id, List.map_id]

end Table
end Registered
end DeviceSchema
