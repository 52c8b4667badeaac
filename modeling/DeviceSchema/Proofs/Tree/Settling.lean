import DeviceSchema.Proofs.Tree.Building

/-! # Settling a collection

A collection is declared bit by bit: a number of instances, keys, a capacity, children.  When all
is declared it is **settled**: what was left open is filled in, and then the whole is checked.
What is filled in depends on the declarations alone and takes none of them back (`FilledIn`), and
filling in twice is filling in once (`Head.settled_settled`).

A collection passes if and only if its declarations agree (`settle_ok_iff`), and then it is
decided for good: settling it again passes again and changes nothing (`settle_decides`).

A collection that is refused keeps what was filled in.  That it was refused cannot be seen later
as long as it is only given children and settled again (`settle_refused`).  It can be seen when
something is declared that was left open, as it is not open any more
(`settle_refused_keys_small`).
-/
namespace DeviceSchema

namespace Head
variable {h : Head}

/-- Nothing is open: the entries are counted or keyed, and the capacity is declared.  Entries that
are both leave nothing open either, as nothing could be filled in that agrees with them. -/
def IsFull (h : Head) : Prop :=
  h.instances ≠ none ∧ h.keys ≠ none ∨ h.capacity ≠ none ∧ (h.instances ≠ none ∨ h.keys ≠ none)

theorem settled_of_both (hi : h.instances ≠ none) (hk : h.keys ≠ none) : h.settled = h := by
  unfold settled
  split <;> simp_all

/-- **Nothing is filled in if and only if nothing is open.** -/
theorem settled_eq_iff : h.settled = h ↔ h.IsFull := by
  obtain ⟨info, instances, keys, capacity⟩ := h
  cases instances <;> cases keys <;> cases capacity <;> simp [settled, IsFull]

/-- What is settled is full. -/
theorem isFull_settled (h : Head) : h.settled.IsFull := by
  obtain ⟨info, instances, keys, capacity⟩ := h
  cases instances <;> cases keys <;> simp [settled, IsFull]

/-- **Filling in twice is filling in once.** -/
theorem settled_settled (h : Head) : h.settled.settled = h.settled :=
  settled_eq_iff.mpr h.isFull_settled

/-- Nothing is filled in that would make a collection both counted and keyed. -/
theorem settled_both (h : Head) :
    (h.settled.instances.isSome && h.settled.keys.isSome) =
      (h.instances.isSome && h.keys.isSome) := by
  rw [settled_keys, settled_instances]
  cases hk : h.keys <;> simp

/-- A declared capacity stands beside a number of instances or keys. -/
theorem settled_capacity_of_some {capacity : Capacity} (hc : h.capacity = some capacity)
    (hone : h.instances ≠ none ∨ h.keys ≠ none) : h.settled.capacity = some capacity := by
  unfold settled
  split <;> simp_all

/-- Keys do not end up with a fixed capacity unless it is declared, or left open while there are
keys already. -/
theorem settled_capacity_keys {keys : List String} (hi : h.instances = none)
    (hk : h.keys = some keys) : h.settled.capacity ≠ some .fixed ↔
      h.capacity ≠ some .fixed ∧ (h.capacity = none → keys = []) := by
  rw [settled, hi, hk]
  cases hc : h.capacity with
  | none => cases keys <;> simp
  | some capacity => simp

end Head

namespace Collection
open Changing
variable {c c' c₁ c₂ : Collection} {limits : Limits} {defect : Defect}

/-- What was left open in `c` is filled in in `c'`, and nothing else is changed. -/
structure FilledIn (c c' : Collection) : Prop where
  info : c'.head.info = c.head.info
  items : c'.items = c.items
  keys : c'.head.keys = c.head.keys
  instances : ∀ n, c.head.instances = some n → c'.head.instances = some n
  capacity : ∀ capacity, c.head.capacity = some capacity →
    c.head.instances ≠ none ∨ c.head.keys ≠ none → c'.head.capacity = some capacity
  /-- What declares neither a number of instances nor keys is an array of one instance, whatever
  capacity it declares. -/
  plain : c.head.instances = none → c.head.keys = none →
    c'.head.instances = some 1 ∧ c'.head.capacity = some .fixed ∧ c'.head.isDictionary = false
  unchanged_iff : c' = c ↔ c.head.IsFull

/-- The collection declares what can be settled. -/
structure CanSettle (limits : Limits) (c : Collection) : Prop where
  one : c.head.instances = none ∨ c.head.keys = none
  items : c.items ≠ []
  keys : ∀ keys, c.head.keys = some keys → 0 < limits.keyLength ∧
    c.head.capacity ≠ some .fixed ∧ (c.head.capacity = none → keys = [])

/-- What settling makes of a collection, whether it passes or not. -/
theorem settle_snd (c : Collection) (limits : Limits) :
    (c.settle limits).2 = { c with head := c.head.settled } := by
  unfold settle
  split
  · rename_i hboth
    rw [Bool.and_eq_true, Option.isSome_iff_ne_none, Option.isSome_iff_ne_none] at hboth
    rw [Head.settled_of_both hboth.1 hboth.2]
  · rfl

theorem settle_filledIn (c : Collection) (limits : Limits) : FilledIn c (c.settle limits).2 where
  info := by rw [settle_snd]; exact Head.settled_info c.head
  items := by rw [settle_snd]
  keys := by rw [settle_snd]; exact Head.settled_keys c.head
  instances n hn := by
    rw [settle_snd, Head.settled_instances, hn]
    simp
  capacity capacity hc hone := by
    rw [settle_snd]
    exact Head.settled_capacity_of_some hc hone
  plain hi hk := by
    rw [settle_snd]
    simp [Head.settled, Head.isDictionary, hi, hk]
  unchanged_iff := by
    rw [settle_snd, ← Head.settled_eq_iff]
    constructor
    · intro h
      exact congrArg Collection.head h
    · intro h
      rw [h]

/-- **That a collection was settled before, with other children and for other limits, makes no
difference.** -/
theorem settle_settle (c : Collection) (items : List Item) (before limits : Limits) :
    settle { (c.settle before).2 with items } limits = settle { c with items } limits := by
  rw [settle_snd]
  unfold settle
  dsimp only
  split
  · rename_i hboth
    rw [Head.settled_both] at hboth
    rw [if_pos hboth]
    rw [Bool.and_eq_true, Option.isSome_iff_ne_none, Option.isSome_iff_ne_none] at hboth
    rw [Head.settled_of_both hboth.1 hboth.2]
  · rename_i hboth
    rw [Head.settled_both] at hboth
    rw [if_neg hboth, Head.settled_settled]

theorem checkSettled_ok_iff : c.checkSettled limits = .ok () ↔
    (c.head.keys.isSome → c.head.capacity ≠ some .fixed ∧ 0 < limits.keyLength) ∧ c.items ≠ [] := by
  constructor
  · intro h
    obtain ⟨hflexible, hallowed, hitems⟩ := checkSettled_ok h
    exact ⟨fun hk => ⟨hflexible hk, hallowed hk⟩, hitems⟩
  · rintro ⟨hkeys, hitems⟩
    unfold checkSettled
    cases hk : c.head.keys <;> simp_all [Limits.allowsKeys]

/-- **A collection can be settled if and only if its declarations agree.** -/
theorem settle_ok_iff : (c.settle limits).1 = .ok () ↔ c.CanSettle limits := by
  unfold settle
  split
  · rename_i hboth
    rw [Bool.and_eq_true, Option.isSome_iff_ne_none, Option.isSome_iff_ne_none] at hboth
    constructor
    · intro h
      cases h
    · intro h
      rcases h.one with hi | hk
      · exact absurd hi hboth.1
      · exact absurd hk hboth.2
  · rename_i hboth
    have hone : c.head.instances = none ∨ c.head.keys = none := by
      simpa [Decidable.imp_iff_not_or] using hboth
    rw [checkSettled_ok_iff, Head.settled_keys]
    constructor
    · rintro ⟨hkeys, hitems⟩
      refine ⟨hone, hitems, fun keys hk => ?_⟩
      have hi : c.head.instances = none := hone.resolve_right (by simp [hk])
      obtain ⟨hcapacity, hlength⟩ := hkeys (by simp [hk])
      exact ⟨hlength, (Head.settled_capacity_keys hi hk).mp hcapacity⟩
    · intro h
      refine ⟨fun hsome => ?_, h.items⟩
      obtain ⟨keys, hk⟩ := Option.isSome_iff_exists.mp hsome
      have hi : c.head.instances = none := hone.resolve_right (by simp [hk])
      obtain ⟨hlength, hcapacity⟩ := h.keys keys hk
      exact ⟨(Head.settled_capacity_keys hi hk).mpr hcapacity, hlength⟩

/-- What settling decides for a collection that passes. -/
structure Decided (limits : Limits) (c c' : Collection) : Prop extends
    Settled limits c', FilledIn c c' where
  dictionary : c'.head.isDictionary = c'.head.keys.isSome
  /-- Settling again passes and changes nothing. -/
  again : c'.settle limits = (.ok (), c')

/-- Settling what was settled passes again. -/
theorem settle_again (h : c.settle limits = (.ok (), c')) : c'.settle limits = (.ok (), c') := by
  have hsnd : (c.settle limits).2 = c' := congrArg Prod.snd h
  have hitems : c'.items = c.items := hsnd ▸ (c.settle_filledIn limits).items
  calc c'.settle limits = settle { c' with items := c.items } limits := by rw [← hitems]
    _ = c.settle limits := hsnd ▸ c.settle_settle c.items limits limits
    _ = (.ok (), c') := h

/-- **A collection passes if and only if its declarations agree, and then it is decided for
good.** -/
theorem settle_decides (c : Collection) (limits : Limits) :
    ((c.settle limits).1 = .ok () ↔ c.CanSettle limits) ∧
    ∀ c', c.settle limits = (.ok (), c') → Decided limits c c' := by
  refine ⟨settle_ok_iff, fun c' h => ?_⟩
  obtain ⟨hsettled, -⟩ := settle_ok h
  have hsnd : (c.settle limits).2 = c' := congrArg Prod.snd h
  refine ⟨hsettled, hsnd ▸ c.settle_filledIn limits, ?_, settle_again h⟩
  have hcounted := hsettled.counted_iff
  cases hi : c'.head.instances <;> cases hk : c'.head.keys <;> simp_all [Head.isDictionary]

section Calls

/-- The calls by which a collection is declared, filled and settled. -/
inductive Call where
  | instances (count : Int)
  | capacity (capacity : Capacity)
  | keys (keys : List String)
  | add (item : Item)
  | settle (limits : Limits)

/-- The call declares nothing. -/
def Call.Undeclaring : Call → Prop
  | .add _ | .settle _ => True
  | _ => False

/-- The collection behind a call, whether it was accepted or not. -/
def after (c : Collection) : Call → Collection
  | .instances count => { c with head := offer Head.declareInstances c.head count }
  | .capacity capacity => { c with head := c.head.declareCapacity capacity }
  | .keys keys => { c with head := c.head.declareKeys keys }
  | .add item => offer add c item
  | .settle limits => (c.settle limits).2

/-- The collection behind some calls. -/
def afterAll (c : Collection) (calls : List Call) : Collection := calls.foldl after c

/-- Two collections that settling makes the same of, whatever children they are given. -/
structure SettlesLike (c₁ c₂ : Collection) : Prop where
  items : c₁.items = c₂.items
  same : ∀ items limits, settle { c₁ with items } limits = settle { c₂ with items } limits

theorem settlesLike_settle (c : Collection) (limits : Limits) :
    SettlesLike (c.settle limits).2 c where
  items := by rw [settle_snd]
  same items later := c.settle_settle items limits later

theorem SettlesLike.settle_eq (h : SettlesLike c₁ c₂) (limits : Limits) :
    c₁.settle limits = c₂.settle limits := by
  calc c₁.settle limits = Collection.settle { c₂ with items := c₁.items } limits :=
        h.same c₁.items limits
    _ = c₂.settle limits := by rw [h.items]

/-- Whether a child is accepted depends on the others. -/
theorem items_offer (c : Collection) (item : Item) : (offer add c item).items =
    match Item.find? c.items item.name with
    | some _ => c.items
    | none => c.items ++ [item] := by
  rw [offer, add, get_bind_at, refusing_at, find?]
  cases Item.find? c.items item.name <;> rfl

theorem SettlesLike.after {call : Call} (h : SettlesLike c₁ c₂) (hcall : call.Undeclaring) :
    SettlesLike (c₁.after call) (c₂.after call) := by
  cases call with
  | instances | capacity | keys => cases hcall
  | add item =>
    have hhead (c : Collection) : (c.after (.add item)).head = c.head := head_offerAll c [item]
    refine ⟨?_, fun items limits => ?_⟩
    · rw [Collection.after, Collection.after, items_offer, items_offer, h.items]
    · rw [hhead, hhead]
      exact h.same items limits
  | settle limits =>
    rw [Collection.after, Collection.after, h.settle_eq]
    exact ⟨rfl, fun _ _ => rfl⟩

theorem SettlesLike.afterAll {calls : List Call} (h : SettlesLike c₁ c₂)
    (hcalls : ∀ call ∈ calls, call.Undeclaring) :
    SettlesLike (c₁.afterAll calls) (c₂.afterAll calls) := by
  induction calls generalizing c₁ c₂ with
  | nil => exact h
  | cons call rest ih =>
    rw [List.forall_mem_cons] at hcalls
    exact ih (h.after hcalls.1) hcalls.2

/-- What is left of a collection that was refused. -/
structure Refused (c c' : Collection) : Prop extends FilledIn c c' where
  /-- As long as nothing more is declared, the collection settles as if it had not been
  refused. -/
  later : ∀ calls, (∀ call ∈ calls, Call.Undeclaring call) → ∀ limits,
    (c'.afterAll calls).settle limits = (c.afterAll calls).settle limits

/-- **A refused collection keeps what was filled in, and no child or declaration is lost.** -/
theorem settle_refused (h : c.settle limits = (.error defect, c')) : Refused c c' := by
  have hsnd : (c.settle limits).2 = c' := congrArg Prod.snd h
  rw [← hsnd]
  refine ⟨c.settle_filledIn limits, fun calls hcalls later => ?_⟩
  exact ((c.settlesLike_settle limits).afterAll hcalls).settle_eq later

/-- A collection of which nothing is declared yet. -/
def undeclared : Collection where
  head := { info := ⟨"l", "L", none, none, none⟩ }

/-- The call that adds an element. -/
def Call.child : Call := .add (.element { info := ⟨"e", "E", none, none, none⟩ })

/-- Keys and an element make a collection that passes, and do it a second time. -/
theorem settle_decides_small : ∃ c',
    (undeclared.afterAll [.keys [], .child]).settle { keyLength := 16 } = (.ok (), c') ∧
      Decided { keyLength := 16 } (undeclared.afterAll [.keys [], .child]) c' :=
  ⟨_, rfl, (settle_decides _ _).2 _ rfl⟩

theorem settle_refused_small : ∃ c', undeclared.settle {} = (.error .noItems, c') ∧
    Refused undeclared c' := by
  have hrefused : undeclared.settle {} = (.error .noItems, (undeclared.settle {}).2) := rfl
  exact ⟨_, hrefused, settle_refused hrefused⟩

/-- **A collection that was refused is another one.**  It has an instance now, so that keys, which
make it pass with an element in it, are refused with the same element. -/
theorem settle_refused_keys_small :
    let limits : Limits := { keyLength := 16 }
    (undeclared.settle limits).1 = .error .noItems ∧
    (undeclared.settle limits).2.head ≠ undeclared.head ∧
    ((undeclared.afterAll [.keys [], .child]).settle limits).1 = .ok () ∧
    ((undeclared.afterAll [.settle limits, .keys [], .child]).settle limits).1 =
      .error .countAndKeys := by
  decide

end Calls
end Collection
end DeviceSchema
