import DeviceSchema.Proofs.Tree.Changes

/-! # Changes that are made as a whole or not at all

A change that meets a defect leaves what it has changed until then, so nothing in the monad
keeps a refused call from doing half of its work.  A change is **atomic** if that never
happens.  It is when all that may refuse stands in front of all that writes, and this is how
atomicity is shown: a step that only looks, or refuses, may stand in front of an atomic change,
and one write at the end is atomic.

Every change that a call makes to the tree is shown to be atomic here.
-/
namespace DeviceSchema

variable {σ τ α : Type}

/-- A change that a defect may end, but not halfway. -/
def Atomic (change : Changing σ Unit) : Prop :=
  ∀ s defect s', change s = .error defect s' → s' = s

namespace Atomic
variable {defect : Defect} {change : Changing σ Unit}

theorem modify {f : σ → σ} : Atomic (modify f) := fun _ _ _ h => nomatch h

theorem throw : Atomic (throw defect : Changing σ Unit) := by
  rintro s _ s' h
  cases h
  rfl

theorem get_bind {rest : σ → Changing σ Unit} (h : ∀ s, Atomic (rest s)) :
    Atomic (get >>= rest) := fun s => h s s

theorem ofExcept_bind {result : Except Defect α} {rest : α → Changing σ Unit}
    (h : ∀ a, Atomic (rest a)) : Atomic (ofExcept result >>= rest) := by
  cases result with
  | ok a => exact h a
  | error defect => exact fun _ _ _ hs => throw _ _ _ hs

/-- A test may refuse what comes behind it. -/
theorem refusing {c : Prop} [Decidable c] {f : α → Changing σ Unit} (h : Atomic change) :
    Atomic (if c then MonadExcept.throw defect >>= f else change) := by
  split
  · exact fun _ _ _ hs => throw _ _ _ hs
  · exact h

/-- What is atomic on a part is atomic on the whole, if the part is put back where it was. -/
theorem within {part : σ → τ} {put : τ → σ → σ} {change : Changing τ Unit} (h : Atomic change)
    (hput : ∀ s, put (part s) s = s) : Atomic (change.within part put) := by
  intro s defect s' hs
  unfold Changing.within at hs
  split at hs
  · cases hs
  · rename_i t ht
    cases hs
    rw [h _ _ _ ht, hput]

end Atomic

theorem Info.atomic_declareAccess {access : Access} : Atomic (declareAccess access) :=
  .get_bind fun _ => .refusing .modify

theorem Info.atomic_attach {condition : Condition} {here : Path} :
    Atomic (attach condition here) :=
  .get_bind fun _ => .refusing (.ofExcept_bind fun _ => .modify)

namespace Element

theorem atomic_declareType {text : String} : Atomic (declareType text) :=
  .get_bind fun _ => .refusing (.ofExcept_bind fun _ => .modify)

theorem atomic_declareOnce {clause : Clause} {slot : Element → Option String}
    {fill : String → Element → Element} {value : String} :
    Atomic (declareOnce clause slot fill value) :=
  .get_bind fun _ => .refusing .modify

theorem atomic_declareMin {value : String} : Atomic (declareMin value) := atomic_declareOnce

theorem atomic_declareMax {value : String} : Atomic (declareMax value) := atomic_declareOnce

theorem atomic_declareDefault {value : String} : Atomic (declareDefault value) :=
  atomic_declareOnce

theorem atomic_declareUnits {value : String} : Atomic (declareUnits value) := atomic_declareOnce

theorem atomic_declarePattern [PatternCompiler] {pattern : String} :
    Atomic (declarePattern pattern) :=
  .ofExcept_bind fun _ => .modify

theorem atomic_addValue {value : Info} : Atomic (addValue value) :=
  .get_bind fun _ => .ofExcept_bind fun _ => .get_bind fun _ => .refusing .modify

theorem atomic_addReference {reference : Info} : Atomic (addReference reference) :=
  .get_bind fun _ => .ofExcept_bind fun _ =>
    .refusing (.get_bind fun _ => .refusing .modify)

end Element

theorem Head.atomic_declareInstances {count : Int} : Atomic (declareInstances count) :=
  .get_bind fun _ => .refusing .modify

theorem Collection.atomic_add {item : Item} : Atomic (add item) :=
  .get_bind fun _ => .refusing .modify

theorem Group.atomic_addError {name : String} {description : Option String} :
    Atomic (addError name description) := by
  refine .get_bind fun _ => .refusing ?_
  cases description with
  | none => exact .throw
  | some text => exact .modify

theorem Table.atomic_addGroup {group : Group} : Atomic (addGroup group) :=
  .get_bind fun _ => .refusing .modify

theorem Table.atomic_addCondition {condition : Condition} : Atomic (addCondition condition) :=
  .get_bind fun _ => .refusing .modify

theorem Catalogs.atomic_declare {name : String} {description : Option String} :
    Atomic (declare name description) := by
  cases description with
  | none => exact .throw
  | some text => exact .get_bind fun _ => .refusing (.get_bind fun _ => .refusing .modify)

namespace Session

theorem withTable_self {s : Session} {kind : TableKind} : s.withTable kind (s.table kind) = s := by
  cases kind <;> rfl

theorem atomic_onTable {kind : TableKind} {change : Changing Table Unit} (h : Atomic change) :
    Atomic (onTable kind change) :=
  h.within fun _ => withTable_self

theorem atomic_onCatalogs {change : Changing Catalogs Unit} (h : Atomic change) :
    Atomic (onCatalogs change) :=
  h.within fun _ => rfl

end Session
end DeviceSchema
