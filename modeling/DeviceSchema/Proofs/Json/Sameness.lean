import Mathlib.Data.List.Forall2
import Mathlib.Data.Option.Defs
import DeviceSchema.Json

/-! # Values that are the same but for the order of members

An object is a map from names, so two objects are the same if they have as many members and each
member of one is found under its name in the other (`Json.same`).  The members of a written value
stand in a fixed order, but some are left out where there is nothing to say.  What is written is
therefore a row of **slots** of which some are empty (`Json.filled`), and two objects that were
written from the same slots are the same if and only if slot by slot both are empty or filled with
the same (`Json.same_filled_iff`).

A way to write values is **faithful** to a notion of alikeness if it gives the same JSON for values
that are alike and for no others (`Json.Faithful`).  Faithful ways to write parts make up a faithful
way to write the whole.
-/
namespace DeviceSchema

/-- Two lists are the same map from names, whatever their order: they have as many entries, and each
entry of one is alike to what has its name in the other. -/
def SameEntries {α : Type} (name : α → String) (alike : α → α → Prop) (xs ys : List α) : Prop :=
  xs.length = ys.length ∧
    ∀ x ∈ xs, ∃ y, ys.find? (fun y => name y = name x) = some y ∧ alike x y

namespace Json

mutual

/-- Whether two values are the same if the order of members does not count. -/
def same : Json → Json → Bool
  | null, null => true
  | bool a, bool b => a == b
  | number m, number n => m == n
  | decimal units places, decimal units' places' => units == units' && places == places'
  | text a, text b => a == b
  | list xs, list ys => sameAll xs ys
  | object xs, object ys => xs.length == ys.length && sameMembers xs ys
  | _, _ => false

def sameAll : List Json → List Json → Bool
  | [], [] => true
  | x :: xs, y :: ys => same x y && sameAll xs ys
  | _, _ => false

/-- Whether each of some members is found under its name in an object. -/
def sameMembers : List (String × Json) → List (String × Json) → Bool
  | [], _ => true
  | (name, value) :: rest, ys =>
    (match ys.lookup name with
      | some value' => same value value'
      | none => false) && sameMembers rest ys

end

section Same

theorem same_text_iff {a b : String} : same (text a) (text b) = true ↔ a = b := by
  rw [same, beq_iff_eq]

theorem same_number_iff {m n : Int} : same (number m) (number n) = true ↔ m = n := by
  rw [same, beq_iff_eq]

theorem same_list_iff {xs ys : List Json} :
    same (list xs) (list ys) = true ↔ List.Forall₂ (fun x y => same x y = true) xs ys := by
  rw [same]
  induction xs generalizing ys with
  | nil => cases ys <;> simp [sameAll]
  | cons x xs ih => cases ys <;> simp [sameAll, ih]

theorem sameMembers_iff {xs ys : List (String × Json)} : sameMembers xs ys = true ↔
    ∀ m ∈ xs, ∃ value, ys.lookup m.1 = some value ∧ same m.2 value = true := by
  induction xs with
  | nil => simp [sameMembers]
  | cons m xs ih =>
    rw [sameMembers, Bool.and_eq_true, ih, List.forall_mem_cons]
    refine and_congr_left fun _ => ?_
    cases ys.lookup m.1 <;> simp

/-- **Objects are the same if they have as many members and each member of one is found in the
other.** -/
theorem same_object_iff {xs ys : List (String × Json)} :
    same (object xs) (object ys) = true ↔ xs.length = ys.length ∧
      ∀ m ∈ xs, ∃ value, ys.lookup m.1 = some value ∧ same m.2 value = true := by
  rw [same, Bool.and_eq_true, beq_iff_eq, sameMembers_iff]

end Same

section Slots

/-- The members of an object by name, some of them left out. -/
abbrev Slots := List (String × Option Json)

/-- The members that are there. -/
def filled (slots : Slots) : List (String × Json) :=
  slots.filterMap fun slot => slot.2.map (slot.1, ·)

/-- Slot by slot, both are empty or filled with the same. -/
def Agree (slots slots' : Slots) : Prop :=
  List.Forall₂ (fun slot slot' => Option.Rel (fun v w => same v w = true) slot.2 slot'.2)
    slots slots'

variable {slots slots' more more' : Slots} {name name' : String} {o o' : Option Json}

theorem filled_append : filled (slots ++ more) = filled slots ++ filled more :=
  List.filterMap_append

theorem filled_cons : filled ((name, o) :: more) = (o.map (name, ·)).toList ++ filled more := by
  cases o <;> rfl

theorem agree_nil : Agree [] [] := .nil

theorem agree_cons_iff : Agree ((name, o) :: more) ((name', o') :: more') ↔
    Option.Rel (fun v w => same v w = true) o o' ∧ Agree more more' :=
  List.forall₂_cons

theorem agree_append_iff (hlength : slots.length = slots'.length) :
    Agree (slots ++ more) (slots' ++ more') ↔ Agree slots slots' ∧ Agree more more' := by
  unfold Agree
  induction slots generalizing slots' with
  | nil =>
    rw [List.length_nil, eq_comm, List.length_eq_zero_iff] at hlength
    simp [hlength]
  | cons slot slots ih =>
    cases slots' with
    | nil => cases hlength
    | cons slot' slots' =>
      simp only [List.cons_append, List.forall₂_cons, ih (Nat.succ.inj hlength), and_assoc]

theorem lookup_filled_cons_ne (h : name ≠ name') :
    (filled ((name', o) :: more)).lookup name = (filled more).lookup name := by
  rw [filled_cons]
  cases o with
  | none => rfl
  | some value => simp [List.lookup_cons, beq_false_of_ne h]

theorem lookup_filled_of_notMem (h : name ∉ slots.map Prod.fst) :
    (filled slots).lookup name = none := by
  induction slots with
  | nil => rfl
  | cons slot rest ih =>
    rw [List.map_cons, List.mem_cons, not_or] at h
    rw [lookup_filled_cons_ne h.1, ih h.2]

/-- If names differ, looking a name up among the members gives what is in its slot. -/
theorem lookup_filled (hnodup : (slots.map Prod.fst).Nodup) (h : (name, o) ∈ slots) :
    (filled slots).lookup name = o := by
  induction slots with
  | nil => cases h
  | cons slot rest ih =>
    rw [List.map_cons, List.nodup_cons] at hnodup
    rcases List.mem_cons.mp h with rfl | hrest
    · cases o with
      | none =>
        change (filled rest).lookup name = none
        exact lookup_filled_of_notMem hnodup.1
      | some value =>
        rw [filled_cons]
        simp
    · have hne : name ≠ slot.1 := by
        intro heq
        exact hnodup.1 (heq ▸ List.mem_map_of_mem hrest)
      rw [lookup_filled_cons_ne hne, ih hnodup.2 hrest]

/-- Whatever is in a slot is found in the other object as well. -/
def Found (slot slot' : String × Option Json) : Prop :=
  ∀ v, slot.2 = some v → ∃ w, slot'.2 = some w ∧ same v w = true

/-- The members of one object are found among some others if the filled slots are. -/
theorem found_iff {members : List (String × Json)} (hnames : slots.map Prod.fst = slots'.map Prod.fst)
    (hlookup : ∀ slot ∈ slots', members.lookup slot.1 = slot.2) :
    (∀ m ∈ filled slots, ∃ value, members.lookup m.1 = some value ∧ same m.2 value = true) ↔
      List.Forall₂ Found slots slots' := by
  induction slots generalizing slots' with
  | nil =>
    rw [List.map_nil, eq_comm, List.map_eq_nil_iff] at hnames
    simp [hnames, filled]
  | cons slot rest ih =>
    cases slots' with
    | nil => cases hnames
    | cons slot' rest' =>
      obtain ⟨name, o⟩ := slot
      rw [List.map_cons, List.map_cons, List.cons.injEq] at hnames
      rw [List.forall_mem_cons] at hlookup
      rw [filled_cons, List.forall_mem_append, ih hnames.2 hlookup.2, List.forall₂_cons]
      refine and_congr_left fun _ => ?_
      rw [Found, ← hlookup.1, ← hnames.1]
      cases o <;> simp

/-- If all that one object has is in the other, they have as many members only if the same slots are
filled. -/
theorem length_filled_le (h : List.Forall₂ Found slots slots') :
    (filled slots).length ≤ (filled slots').length ∧
      ((filled slots).length = (filled slots').length ↔ Agree slots slots') := by
  induction h with
  | nil => simp [agree_nil]
  | @cons slot slot' rest rest' hfound _ ih =>
    obtain ⟨name, o⟩ := slot
    obtain ⟨name', o'⟩ := slot'
    obtain ⟨hle, hiff⟩ := ih
    rw [filled_cons, filled_cons, agree_cons_iff, ← hiff]
    cases o with
    | some v =>
      obtain ⟨w, hw, hsame⟩ := hfound v rfl
      obtain rfl : o' = some w := hw
      simp [hle, hsame]
    | none =>
      cases o' with
      | none => simpa using hle
      | some w =>
        simp
        omega

/-- **Objects that are written from slots of the same names are the same if and only if the slots
agree.** -/
theorem same_filled_iff (names : List String) (hslots : slots.map Prod.fst = names)
    (hslots' : slots'.map Prod.fst = names) (hnodup : names.Nodup) :
    same (object (filled slots)) (object (filled slots')) = true ↔ Agree slots slots' := by
  have hlookup : ∀ slot ∈ slots', (filled slots').lookup slot.1 = slot.2 :=
    fun slot hslot => lookup_filled (hslots' ▸ hnodup) hslot
  rw [same_object_iff, found_iff (hslots.trans hslots'.symm) hlookup]
  constructor
  · rintro ⟨hlength, hfound⟩
    exact (length_filled_le hfound).2.mp hlength
  · intro hagree
    have hfound : List.Forall₂ Found slots slots' := by
      refine hagree.imp fun slot slot' hrel v hv => ?_
      rw [hv] at hrel
      obtain ⟨o', ho'⟩ : ∃ o', slot'.2 = o' := ⟨_, rfl⟩
      rw [ho'] at hrel
      cases hrel with
      | some hsame => exact ⟨_, ho', hsame⟩
    exact ⟨(length_filled_le hfound).2.mpr hagree, hfound⟩

/-- Objects whose first members have one name differ if these members do. -/
theorem same_of_same_filled_cons {v w : Json}
    (h : same (object (filled ((name, some v) :: more)))
      (object (filled ((name, some w) :: more'))) = true) : same v w = true := by
  rw [same_object_iff, filled_cons, filled_cons] at h
  obtain ⟨value, hvalue, hsame⟩ := h.2 (name, v) (by simp)
  simp only [Option.map_some, Option.toList_some, List.singleton_append,
    List.lookup_cons_self, Option.some.injEq] at hvalue
  exact hvalue ▸ hsame

end Slots

section Faithful
variable {α β : Type} {alike : α → α → Prop} {write : α → Json} {a b : α}

/-- What is written is the same exactly for values that are alike. -/
def Faithful (alike : α → α → Prop) (write : α → Json) : Prop :=
  ∀ a b, same (write a) (write b) = true ↔ alike a b

theorem faithful_text : Faithful Eq text := fun _ _ => same_text_iff

theorem faithful_count : Faithful Eq count := fun _ _ => same_number_iff.trans Int.ofNat_inj

theorem Faithful.comp (h : Faithful Eq write) {f : β → α} (hf : f.Injective) :
    Faithful Eq fun b => write (f b) :=
  fun _ _ => (h _ _).trans hf.eq_iff

/-- Items of a list, of which only those of one list have to be known to be written faithfully. -/
theorem same_list_map_iff {xs ys : List α}
    (h : ∀ x ∈ xs, ∀ y, same (write x) (write y) = true ↔ x = y) :
    same (list (xs.map write)) (list (ys.map write)) = true ↔ xs = ys := by
  rw [same_list_iff, List.forall₂_map_left_iff, List.forall₂_map_right_iff]
  induction xs generalizing ys with
  | nil => cases ys <;> simp
  | cons x xs ih =>
    rw [List.forall_mem_cons] at h
    cases ys with
    | nil => simp
    | cons y ys => rw [List.forall₂_cons, h.1, ih h.2, List.cons.injEq]

theorem Faithful.list (h : Faithful Eq write) :
    Faithful Eq fun xs : List α => Json.list (xs.map write) :=
  fun _ _ => same_list_map_iff fun x _ y => h x y

theorem faithful_texts : Faithful Eq texts := faithful_text.list

/-- Choices that are written as words, or null where there is none. -/
theorem faithful_word? {word : α → String} (hword : word.Injective) :
    Faithful Eq fun o : Option α => text? (o.map word) := by
  intro o o'
  cases o <;> cases o' <;> simp [text?, same, hword.eq_iff]

section Slot
variable {o o' : Option α}

theorem Faithful.slot_iff (h : Faithful alike write) :
    Option.Rel (fun v w => same v w = true) (some (write a)) (some (write b)) ↔ alike a b :=
  Option.rel_some_some.trans (h a b)

theorem Faithful.slot?_iff (h : Faithful Eq write) :
    Option.Rel (fun v w => same v w = true) (o.map write) (o'.map write) ↔ o = o' := by
  cases o <;> cases o' <;> simp [h _ _]

/-- What is written unless it says nothing, as long as values that say nothing are all alike. -/
theorem Faithful.slotUnless_iff (h : Faithful alike write) {silent : α → Bool}
    (hsilent : silent a = true → silent b = true → alike a b)
    (hkept : alike a b → silent a = silent b) :
    Option.Rel (fun v w => same v w = true) (if silent a then none else some (write a))
      (if silent b then none else some (write b)) ↔ alike a b := by
  split_ifs with ha hb hb
  · simp [hsilent ha hb]
  · simpa [ha, hb] using hkept
  · simpa [ha, hb] using hkept
  · exact h.slot_iff

end Slot

section Rows
variable {names : List String} {slots : α → Slots}

/-- Values of one kind are read off as slots of the same names, which agree exactly if the values are
alike. -/
structure Row (names : List String) (alike : α → α → Prop) (slots : α → Slots) : Prop where
  names : ∀ a, (slots a).map Prod.fst = names
  agree : ∀ a b, Agree (slots a) (slots b) ↔ alike a b

theorem Row.length_eq (h : Row names alike slots) (a b : α) :
    (slots a).length = (slots b).length := by
  simpa using congrArg List.length ((h.names a).trans (h.names b).symm)

/-- A row is written faithfully as one object if its names differ. -/
theorem Row.faithful (h : Row names alike slots) (hnodup : names.Nodup)
    (hwrite : ∀ a, write a = object (filled (slots a))) : Faithful alike write := by
  intro a b
  rw [hwrite, hwrite, same_filled_iff names (h.names a) (h.names b) hnodup, h.agree]

end Rows

section Entries

theorem lookup_map (name : α → String) (write : α → Json) (ys : List α) (key : String) :
    (ys.map fun y => (name y, write y)).lookup key =
      (ys.find? fun y => name y = key).map write := by
  induction ys with
  | nil => rfl
  | cons y ys ih =>
    rw [List.map_cons, List.lookup_cons, List.find?_cons, ih]
    by_cases hy : name y = key
    · simp [hy]
    · simp [hy, beq_false_of_ne (Ne.symm hy)]

/-- A map from names is written as an object. -/
theorem Faithful.entries (h : Faithful alike write) (name : α → String) :
    Faithful (SameEntries name alike) fun xs => object (xs.map fun x => (name x, write x)) := by
  intro xs ys
  rw [same_object_iff, SameEntries, List.length_map, List.length_map, List.forall_mem_map]
  refine and_congr_right fun _ => forall₂_congr fun x _ => ?_
  rw [lookup_map]
  cases ys.find? fun y => name y = name x <;> simp [h x]

end Entries
end Faithful
end Json
end DeviceSchema
