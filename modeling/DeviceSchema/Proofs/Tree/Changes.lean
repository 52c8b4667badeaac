import DeviceSchema.Proofs.Computation
import DeviceSchema.Tree.Session

/-! # What changes to the tree do

Every change to the tree may be refused.  The lemmas here say when one is accepted and what an
accepted one has done: which fields it wrote, with what, and what was known of the old ones.
Nothing later looks into a change again.

What a check has let pass is known in the same way, so far as somebody needs to know it.

A change of an element that concerns only its bounds, default, units and pattern
leaves what the tree as a whole depends on as it is (`Element.Alike`).
-/
namespace DeviceSchema

section Steps
variable {σ τ α β : Type} {s s' : σ} {defect : Defect}

theorem changed_ok {result : EStateM.Result Defect σ Unit} :
    changed result = .ok s ↔ result = .ok () s := by
  cases result <;> simp [changed]

theorem changed_toOption_eq_none {result : EStateM.Result Defect σ Unit}
    (h : ∀ t, result ≠ .ok () t) : (changed result).toOption = none := by
  cases result with
  | ok u t => exact absurd rfl (h t)
  | error defect t => rfl

/-- What a change comes to if it is known when it is accepted. -/
theorem changed_toOption {result : EStateM.Result Defect σ Unit} {accepts : Bool}
    (h : ∀ t, result = .ok () t ↔ accepts = true ∧ t = s) :
    (changed result).toOption = if accepts then some s else none := by
  cases accepts with
  | true =>
    rw [(h s).mpr ⟨rfl, rfl⟩]
    rfl
  | false => exact changed_toOption_eq_none fun t ht => nomatch ((h t).mp ht).1

namespace Changing

theorem get_bind_at {rest : σ → Changing σ β} : (get >>= rest) s = rest s s := rfl

theorem modify_ok {f : σ → σ} : (modify f : Changing σ Unit) s = .ok () s' ↔ s' = f s := by
  show EStateM.Result.ok () (f s) = _ ↔ _
  simp [eq_comm]

theorem refusing_at {c : Prop} [Decidable c] {f : α → Changing σ β} {rest : Changing σ β} :
    (if c then throw defect >>= f else rest) s = if c then .error defect s else rest s := by
  split <;> rfl

/-- Behind a test that refuses, the test has not held. -/
theorem refusing_ok {c : Prop} [Decidable c] {f : α → Changing σ β} {rest : Changing σ β} {b : β} :
    (if c then throw defect >>= f else rest) s = .ok b s' ↔ ¬ c ∧ rest s = .ok b s' := by
  rw [refusing_at]
  split <;> simp_all

theorem ofExcept_bind_ok {result : Except Defect α} {rest : α → Changing σ β} {b : β} :
    (ofExcept result >>= rest) s = .ok b s' ↔ ∃ a, result = .ok a ∧ rest a s = .ok b s' := by
  cases result with
  | ok a => simp [show (ofExcept (.ok a) >>= rest) s = rest a s from rfl]
  | error defect => exact iff_of_false nofun (fun ⟨_, h, _⟩ => nomatch h)

theorem within_ok {part : σ → τ} {put : τ → σ → σ} {change : Changing τ Unit} :
    change.within part put s = .ok () s' ↔ ∃ t, change (part s) = .ok () t ∧ s' = put t s := by
  unfold within
  cases change (part s) <;> simp [eq_comm]

end Changing
end Steps

open Changing

namespace Info

theorem ofMember_ok {name : String} {description help : Option String} {info : Info}
    (h : ofMember name description help = .ok info) :
    isReserved name = false ∧ info = { name, description := description.getD "", help } := by
  unfold ofMember at h
  split at h
  · cases h
  · cases h
    exact ⟨eq_false_of_ne_true ‹_›, rfl⟩

theorem ofItem_ok {name : String} {description help : Option String} {info : Info}
    (h : ofItem name description help = .ok info) :
    isReserved name = false ∧
      ∃ text, description = some text ∧ info = { name, description := text, help } := by
  cases description with
  | none => cases h
  | some text =>
    obtain ⟨free, rfl⟩ := ofMember_ok h
    exact ⟨free, text, rfl, rfl⟩

theorem declareAccess_ok_iff {info info' : Info} {access : Access} :
    declareAccess access info = .ok () info' ↔
      info.access = none ∧ info' = { info with access := some access } := by
  rw [declareAccess, get_bind_at, refusing_ok, modify_ok, Option.not_isSome_iff_eq_none]

theorem attach_ok_iff {info info' : Info} {condition : Condition} {here : Path} :
    attach condition here info = .ok () info' ↔
      info.condition = none ∧ ∃ reference, condition.source.relativeTo here = .ok reference ∧
        info' = { info with
          condition := some ⟨condition.name, reference, condition.predicate⟩ } := by
  rw [attach, get_bind_at, refusing_ok, ofExcept_bind_ok, Option.not_isSome_iff_eq_none]
  simp only [modify_ok]

end Info

namespace Element

/-- Two elements that differ at most in bounds, default, units and pattern. -/
structure Alike (e e' : Element) : Prop where
  info : e'.info = e.info
  type : e'.type = e.type
  values : e'.values = e.values
  references : e'.references = e.references

variable {e e' : Element}

theorem declareType_ok_iff {text : String} : e.declareType text = .ok () e' ↔
    e.type = none ∧
      ∃ type, ValueType.ofText text = .ok type ∧ e' = { e with type := some type } := by
  rw [declareType, get_bind_at, refusing_ok, ofExcept_bind_ok, Option.not_isSome_iff_eq_none]
  simp only [modify_ok]

theorem declareOnce_ok_iff {clause : Clause} {slot : Element → Option String}
    {fill : String → Element → Element} {value : String} :
    declareOnce clause slot fill value e = .ok () e' ↔ slot e = none ∧ e' = fill value e := by
  rw [declareOnce, get_bind_at, refusing_ok, modify_ok, Option.not_isSome_iff_eq_none]

theorem declareMin_ok_iff {text : String} : e.declareMin text = .ok () e' ↔
    e.min = none ∧ e' = { e with min := some text } := declareOnce_ok_iff

theorem declareMax_ok_iff {text : String} : e.declareMax text = .ok () e' ↔
    e.max = none ∧ e' = { e with max := some text } := declareOnce_ok_iff

theorem declareDefault_ok_iff {text : String} : e.declareDefault text = .ok () e' ↔
    e.default = none ∧ e' = { e with default := some text } := declareOnce_ok_iff

theorem declareUnits_ok_iff {text : String} : e.declareUnits text = .ok () e' ↔
    e.units = none ∧ e' = { e with units := some text } := declareOnce_ok_iff

theorem declarePattern_ok_iff [PatternCompiler] {text : String} :
    e.declarePattern text = .ok () e' ↔ PatternCompiler.compile text = .ok () ∧
      e' = { e with rule := { e.rule with pattern := some text } } := by
  rw [declarePattern, ofExcept_bind_ok]
  simp only [except_mapError_ok, modify_ok]
  exact ⟨fun ⟨(), h⟩ => h, fun h => ⟨(), h⟩⟩

theorem declareOnce_alike {clause : Clause} {slot : Element → Option String}
    {fill : String → Element → Element} {value : String} (hfill : Alike e (fill value e))
    (h : declareOnce clause slot fill value e = .ok () e') : Alike e e' := by
  obtain ⟨-, rfl⟩ := declareOnce_ok_iff.mp h
  exact hfill

theorem declareMin_alike {value : String} (h : e.declareMin value = .ok () e') : Alike e e' :=
  declareOnce_alike ⟨rfl, rfl, rfl, rfl⟩ h

theorem declareMax_alike {value : String} (h : e.declareMax value = .ok () e') : Alike e e' :=
  declareOnce_alike ⟨rfl, rfl, rfl, rfl⟩ h

theorem declareDefault_alike {value : String} (h : e.declareDefault value = .ok () e') :
    Alike e e' :=
  declareOnce_alike ⟨rfl, rfl, rfl, rfl⟩ h

theorem declareUnits_alike {value : String} (h : e.declareUnits value = .ok () e') :
    Alike e e' :=
  declareOnce_alike ⟨rfl, rfl, rfl, rfl⟩ h

theorem declarePattern_alike [PatternCompiler] {pattern : String}
    (h : e.declarePattern pattern = .ok () e') : Alike e e' := by
  obtain ⟨-, rfl⟩ := declarePattern_ok_iff.mp h
  exact ⟨rfl, rfl, rfl, rfl⟩

theorem declareCase_alike (e : Element) (caseRule : CaseRule) :
    Alike e (e.declareCase caseRule) := ⟨rfl, rfl, rfl, rfl⟩

theorem declareWording_alike (e : Element) (wording : String) :
    Alike e (e.declareWording wording) := ⟨rfl, rfl, rfl, rfl⟩

theorem memberType_ok_iff {type : ValueType} :
    e.memberType = .ok type ↔ e.type = some type ∧ (type = .enum ∨ type = .refEnum) := by
  unfold memberType
  split <;> simp_all
  all_goals grind

theorem addValue_ok_iff {info : Info} : e.addValue info = .ok () e' ↔
    (e.type = some .enum ∨ e.type = some .refEnum) ∧ (∀ v ∈ e.values, v.name ≠ info.name) ∧
      e' = { e with values := e.values ++ [info] } := by
  rw [addValue, get_bind_at, ofExcept_bind_ok]
  simp only [get_bind_at, refusing_ok, modify_ok, memberType_ok_iff, exists_and_right]
  simp [and_or_left, exists_or]

theorem addReference_ok_iff {info : Info} : e.addReference info = .ok () e' ↔
    e.type = some .refEnum ∧ (∀ r ∈ e.references, r.name ≠ info.name) ∧
      e' = { e with references := e.references ++ [info] } := by
  rw [addReference, get_bind_at, ofExcept_bind_ok]
  simp only [get_bind_at, refusing_ok, modify_ok, memberType_ok_iff]
  constructor
  · rintro ⟨type, ⟨htype, -⟩, hrefEnum, hnew, rfl⟩
    obtain rfl : type = .refEnum := Decidable.not_not.mp hrefEnum
    exact ⟨htype, by simpa using hnew, rfl⟩
  · rintro ⟨htype, hnew, rfl⟩
    exact ⟨.refEnum, ⟨htype, .inr rfl⟩, by decide, by simpa using hnew, rfl⟩

theorem integerIn_ok {range : IntegerRange} {bound : Bound} {text : String} {value : Int}
    (h : integerIn range bound text = .ok value) : integerOfText? text = some value := by
  unfold integerIn at h
  split at h
  · cases h
  · split at h
    · cases h
    · split at h <;> cases h
      assumption

theorem realOf_ok {bound : Bound} {text : String} {value : Int}
    (h : realOf bound text = .ok value) : Text.Real.ofText? text.toList = some value := by
  unfold realOf at h
  split at h <;> cases h
  assumption

/-- A bound of an element that passes its check is an integer, or a real where the type is
that of reals. -/
theorem bound_of_check {e : Element} {text : String} (h : e.check = .ok ())
    (hbound : e.min = some text ∨ e.max = some text) :
    (∃ value, integerOfText? text = some value) ∨
      e.type = some .float ∧ ∃ units, Text.Real.ofText? text.toList = some units := by
  have hread {min max : Int} {read : Bound → String → Except Defect Int} {low high : Int}
      (hmin : boundOr low (read .min) e.min = .ok min)
      (hmax : boundOr high (read .max) e.max = .ok max) : ∃ b v, read b text = .ok v := by
    rcases hbound with hb | hb
    · rw [hb] at hmin
      exact ⟨.min, min, hmin⟩
    · rw [hb] at hmax
      exact ⟨.max, max, hmax⟩
  have hinteger {type : ValueType} {range : IntegerRange}
      (hrange : e.checkIntegerRange type range = .ok ()) :
      ∃ value, integerOfText? text = some value := by
    obtain ⟨min, hmin, hrange⟩ := except_bind_ok.mp hrange
    obtain ⟨max, hmax, -⟩ := except_bind_ok.mp hrange
    obtain ⟨b, v, hv⟩ := hread hmin hmax
    exact ⟨v, integerIn_ok hv⟩
  have hnone {type : ValueType} (htype : type.hasBounds = false) :
      e.checkBoundsAllowed type ≠ .ok () := by
    intro hallowed
    unfold checkBoundsAllowed at hallowed
    rcases hbound with hb | hb <;> simp [htype, hb] at hallowed
    split at hallowed <;> cases hallowed
  unfold check at h
  split at h
  · cases h
  · rename_i type htype
    obtain ⟨u₁, hallowed, h⟩ := except_bind_ok.mp h
    obtain ⟨u₂, -, h⟩ := except_bind_ok.mp h
    obtain ⟨u₃, -, h⟩ := except_bind_ok.mp h
    -- A type either has no bounds or has them read as numbers.
    cases type with
    | float =>
      obtain ⟨min, hmin, h⟩ := except_bind_ok.mp h
      obtain ⟨max, hmax, -⟩ := except_bind_ok.mp h
      obtain ⟨b, v, hv⟩ := hread hmin hmax
      exact .inr ⟨htype, v, realOf_ok hv⟩
    | string | multilineString | password | int32 | uint32 | hex32 | prefixedHex32 | fqdnv4
    | fqdnv6 => exact .inl (hinteger h)
    | enum | onOff | boolean | ipv4 | list | macAddress | datetime | refEnum =>
      exact absurd hallowed (hnone rfl)

end Element

namespace Head

theorem declareInstances_ok_iff {head head' : Head} {count : Int} :
    declareInstances count head = .ok () head' ↔
      0 < count ∧ head' = { head with instances := some count.toNat } := by
  rw [declareInstances, get_bind_at, refusing_ok, modify_ok, Int.not_le]

@[simp] theorem settled_info (h : Head) : h.settled.info = h.info := by
  unfold settled
  split <;> rfl

@[simp] theorem settled_keys (h : Head) : h.settled.keys = h.keys := by
  unfold settled
  split <;> rfl

/-- What `settled` fills in.  Where the entries are both counted and named by
keys it fills in nothing. -/
theorem settled_instances (h : Head) :
    h.settled.instances = if h.keys = none then some (h.instances.getD 1) else h.instances := by
  unfold settled
  split <;> simp_all

theorem settled_capacity {h : Head} (hck : h.instances = none ∨ h.keys = none) :
    h.settled.capacity.isSome := by
  unfold settled
  split <;> simp_all

end Head

namespace Collection

/-- What `settle` decides for a collection: its entries are either counted, by a
positive number, or named by keys, and keys can only be those that users add. -/
structure Settled (limits : Limits) (c : Collection) : Prop where
  items_ne_nil : c.items ≠ []
  capacity_isSome : c.head.capacity.isSome
  counted_iff : c.head.instances.isSome ↔ c.head.keys = none
  keys_flexible : c.head.keys.isSome → c.head.capacity = some .flexible
  keys_allowed : c.head.keys.isSome → 0 < limits.keyLength

theorem checkSettled_ok {c : Collection} {limits : Limits}
    (h : c.checkSettled limits = .ok ()) :
    (c.head.keys.isSome → c.head.capacity ≠ some .fixed) ∧
      (c.head.keys.isSome → 0 < limits.keyLength) ∧ c.items ≠ [] := by
  unfold checkSettled at h
  split at h
  · cases h
  · split at h
    · cases h
    · split at h
      · cases h
      · rename_i hfixed hallowed hitems
        exact ⟨by simpa using hfixed,
          by simpa [Limits.allowsKeys, UInt64.pos_iff_ne_zero] using hallowed,
          by simpa using hitems⟩

theorem settle_ok {c c' : Collection} {limits : Limits}
    (h : c.settle limits = (.ok (), c')) :
    Settled limits c' ∧ c' = { c with head := c.head.settled } := by
  unfold settle at h
  split at h
  · cases h
  · rename_i hck
    obtain ⟨hc, rfl⟩ := Prod.mk.inj h
    obtain ⟨hflexible, hallowed, hitems⟩ := checkSettled_ok hc
    have hone : c.head.instances = none ∨ c.head.keys = none := by
      simpa [Decidable.imp_iff_not_or] using hck
    refine ⟨⟨hitems, Head.settled_capacity hone, ?_, ?_, hallowed⟩, rfl⟩
    · rw [Head.settled_instances, Head.settled_keys]
      rcases hone with hi | hk
      · by_cases hk : c.head.keys = none <;> simp [hk, hi]
      · simp [hk]
    · intro hk
      have hcap := Head.settled_capacity hone
      have hfixed := hflexible hk
      cases hcase : c.head.settled.capacity with
      | none => simp [hcase] at hcap
      | some capacity => cases capacity <;> simp_all

/-- Settling a collection changes nothing else than what it decides. -/
theorem settle_keeps {c c' : Collection} {limits : Limits}
    (h : c.settle limits = (.ok (), c')) : c'.head.info = c.head.info ∧ c'.items = c.items := by
  obtain ⟨-, rfl⟩ := settle_ok h
  exact ⟨Head.settled_info c.head, rfl⟩

/-- Also a collection that cannot be settled keeps its name. -/
theorem settle_name (c : Collection) (limits : Limits) : (c.settle limits).2.name = c.name := by
  unfold settle
  split
  · rfl
  · exact congrArg Info.name (Head.settled_info c.head)

theorem add_ok_iff {c c' : Collection} {item : Item} : add item c = .ok () c' ↔
    (∀ i ∈ c.items, i.name ≠ item.name) ∧ c' = { c with items := c.items ++ [item] } := by
  rw [add, get_bind_at, refusing_ok, modify_ok]
  simp [find?, Item.find?]

end Collection

/-- An error of a group can be added if and only if its name is new and it is described. -/
theorem Group.addError_ok_iff {g g' : Group} {name : String} {description : Option String} :
    addError name description g = .ok () g' ↔
      ∃ text, (∀ n ∈ g.errors, n.name ≠ name) ∧ description = some text ∧
        g' = { g with errors := g.errors ++ [⟨name, text⟩] } := by
  cases description with
  | none =>
    unfold addError
    rw [get_bind_at, refusing_ok]
    exact iff_of_false (fun h => nomatch h.2) (fun ⟨_, _, h, _⟩ => nomatch h)
  | some text =>
    rw [addError, get_bind_at, refusing_ok, modify_ok]
    simp

namespace Table

theorem condition_ok {t : Table} {name : String} {condition : Condition}
    (h : t.condition name = .ok condition) : condition ∈ t.conditions := by
  unfold Table.condition at h
  split at h
  · cases h
    exact List.mem_of_find?_eq_some ‹_›
  · cases h

theorem addGroup_ok_iff {t t' : Table} {group : Group} : addGroup group t = .ok () t' ↔
    (∀ g ∈ t.groups, g.name ≠ group.name) ∧ t' = { t with groups := t.groups ++ [group] } := by
  rw [addGroup, get_bind_at, refusing_ok, modify_ok]
  simp [group?]

theorem addCondition_ok_iff {t t' : Table} {condition : Condition} :
    addCondition condition t = .ok () t' ↔
      (∀ c ∈ t.conditions, c.name ≠ condition.name) ∧
        t' = { t with conditions := t.conditions ++ [condition] } := by
  rw [addCondition, get_bind_at, refusing_ok, modify_ok]
  simp [condition?]

end Table

theorem Catalogs.declare_ok_iff {c c' : Catalogs} {name : String} {description : Option String} :
    declare name description c = .ok () c' ↔
      ∃ text, description = some text ∧ c.isProtocolError name = false ∧
        c.declared.contains name = false ∧
        c' = { c with declared := c.declared.append ⟨name, text⟩ } := by
  cases description with
  | none => exact iff_of_false nofun (fun ⟨_, h, _⟩ => nomatch h)
  | some text =>
    rw [declare, get_bind_at]
    simp only [get_bind_at, refusing_ok, modify_ok]
    simp

namespace Session
variable {s : Session} {kind other : TableKind} {t : Table}

theorem onTable_ok_iff {s' : Session} {change : Changing Table Unit} :
    onTable kind change s = .ok () s' ↔
      ∃ t, change (s.table kind) = .ok () t ∧ s' = s.withTable kind t := within_ok

theorem onCatalogs_ok_iff {s' : Session} {change : Changing Catalogs Unit} :
    onCatalogs change s = .ok () s' ↔
      ∃ catalogs, change s.catalogs = .ok () catalogs ∧ s' = { s with catalogs } := within_ok

@[simp] theorem withTable_table : (s.withTable kind t).table kind = t := by
  cases kind <;> rfl

theorem withTable_table_ne (h : other ≠ kind) : (s.withTable kind t).table other = s.table other := by
  cases kind <;> cases other <;> first | rfl | exact absurd rfl h

@[simp] theorem withTable_limits : (s.withTable kind t).limits = s.limits := by
  cases kind <;> rfl

@[simp] theorem withTable_statistics : (s.withTable kind t).statistics = s.statistics := by
  cases kind <;> rfl

@[simp] theorem withTable_refEnums : (s.withTable kind t).refEnums = s.refEnums := by
  cases kind <;> rfl

end Session
end DeviceSchema
