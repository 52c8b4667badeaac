import DeviceSchema.Tree.Session

/-! # Changes within one table

One defect is not about what a description says but about where a change is made: a
condition can be attached only to a node of the table that its source belongs to.  Every
other change to the tree **stays within** a table (`StaysWithin`): it may be refused, but
never because the tables differ.  The lemmas here go through the changes and checks one by
one; attaching stays within a table if the condition belongs to it (`Info.staysWithin_attach`).
-/
namespace DeviceSchema

/-- There may be a defect, but not that the tables differ. -/
def WithinTable {α : Type} (result : Except Defect α) : Prop := result ≠ .error .differentTables

section Results
variable {α β : Type} {result : Except Defect α}

@[simp] theorem withinTable_ok {a : α} : WithinTable (.ok a) := by simp [WithinTable]

@[simp] theorem withinTable_error {defect : Defect} :
    WithinTable (.error defect : Except Defect α) ↔ defect ≠ .differentTables := by
  simp [WithinTable]

theorem WithinTable.bind {f : α → Except Defect β} (h : WithinTable result)
    (hf : ∀ a, WithinTable (f a)) : WithinTable (result >>= f) := by
  cases result with
  | ok a => exact hf a
  | error defect => simpa [Bind.bind, Except.bind] using h

theorem WithinTable.map {f : α → β} (h : WithinTable result) : WithinTable (result.map f) := by
  cases result with
  | ok a => exact withinTable_ok
  | error defect => simpa [Except.map] using h

/-- A text that is no keyword is a defect of its own kind. -/
theorem withinTable_word {word : Option α} {defect : Defect} (h : defect ≠ .differentTables) :
    WithinTable (word.elim (.error defect) .ok) := by
  cases word with
  | none => exact withinTable_error.mpr h
  | some a => exact withinTable_ok

end Results

section Changes
variable {σ τ α : Type} {change : Changing σ Unit} {defect : Defect}

/-- The change may be refused, but not because the tables differ. -/
def StaysWithin (change : Changing σ Unit) : Prop := ∀ s, WithinTable (changed (change s))

namespace StaysWithin

theorem modify {f : σ → σ} : StaysWithin (modify f) := fun _ => withinTable_ok

theorem throw (h : defect ≠ .differentTables) : StaysWithin (throw defect : Changing σ Unit) :=
  fun _ => withinTable_error.mpr h

theorem get_bind {rest : σ → Changing σ Unit} (h : ∀ s, StaysWithin (rest s)) :
    StaysWithin (get >>= rest) := fun s => h s s

theorem ofExcept_bind {result : Except Defect α} {rest : α → Changing σ Unit}
    (hresult : WithinTable result) (h : ∀ a, StaysWithin (rest a)) :
    StaysWithin (ofExcept result >>= rest) := by
  cases result with
  | ok a => exact h a
  | error defect => exact throw (withinTable_error.mp hresult)

theorem refusing {c : Prop} [Decidable c] {f : α → Changing σ Unit}
    (hdefect : defect ≠ .differentTables) (h : StaysWithin change) :
    StaysWithin (if c then MonadExcept.throw defect >>= f else change) := by
  split
  · exact throw hdefect
  · exact h

theorem within {part : σ → τ} {put : τ → σ → σ} {change : Changing τ Unit}
    (h : StaysWithin change) : StaysWithin (change.within part put) := by
  intro s
  have hs := h (part s)
  unfold Changing.within
  cases hp : change (part s) with
  | ok _ t => exact withinTable_ok
  | error defect t =>
    rw [hp] at hs
    exact withinTable_error.mpr (withinTable_error.mp hs)

end StaysWithin
end Changes

theorem Path.withinTable_ofText (text : String) : WithinTable (Path.ofText text) := by
  unfold Path.ofText
  dsimp only
  split
  · split
    · exact withinTable_ok
    · exact (withinTable_word (by simp)).map
  · exact withinTable_ok

namespace Info
variable {condition : Condition} {here : Path}

theorem withinTable_ofMember {name : String} {description help : Option String} :
    WithinTable (ofMember name description help) := by
  unfold ofMember
  split <;> simp

theorem withinTable_ofItem {name : String} {description help : Option String} :
    WithinTable (ofItem name description help) := by
  unfold ofItem
  split
  · simp
  · exact withinTable_ofMember

theorem staysWithin_declareAccess {access : Access} : StaysWithin (declareAccess access) :=
  .get_bind fun _ => .refusing nofun .modify

/-- A condition can be attached in the table of its source. -/
theorem staysWithin_attach (h : condition.source.table = here.table) :
    StaysWithin (attach condition here) := by
  refine .get_bind fun _ => .refusing nofun (.ofExcept_bind ?_ fun _ => .modify)
  rw [Path.relativeTo, if_neg (by simp [h])]
  split <;> simp

end Info

theorem withinTable_integerIn {range : IntegerRange} {bound : Bound} {text : String} :
    WithinTable (integerIn range bound text) := by
  unfold integerIn
  split
  · simp
  · repeat' split
    all_goals simp

theorem withinTable_realOf {bound : Bound} {text : String} : WithinTable (realOf bound text) := by
  unfold realOf
  split <;> simp

theorem withinTable_boundOr {limit : Int} {read : String → Except Defect Int}
    {text : Option String} (h : ∀ text, WithinTable (read text)) :
    WithinTable (boundOr limit read text) := by
  cases text with
  | none => exact withinTable_ok
  | some text => exact h text

theorem withinTable_checkBetween {min max value : Int} :
    WithinTable (checkBetween min max value) := by
  unfold checkBetween
  split <;> simp

namespace Element
variable {e : Element} {value : String} {type : ValueType}

theorem staysWithin_declareType : StaysWithin (declareType value) :=
  .get_bind fun _ => .refusing nofun (.ofExcept_bind (withinTable_word nofun) fun _ => .modify)

theorem staysWithin_declareOnce {clause : Clause} {slot : Element → Option String}
    {fill : String → Element → Element} : StaysWithin (declareOnce clause slot fill value) :=
  .get_bind fun _ => .refusing nofun .modify

theorem staysWithin_declarePattern [PatternCompiler] : StaysWithin (declarePattern value) := by
  refine .ofExcept_bind ?_ fun _ => .modify
  cases PatternCompiler.compile value with
  | ok u => exact withinTable_ok
  | error reason => exact withinTable_error.mpr nofun

theorem withinTable_memberType : WithinTable e.memberType := by
  unfold memberType
  split <;> simp

theorem staysWithin_addValue {member : Info} : StaysWithin (addValue member) :=
  .get_bind fun _ => .ofExcept_bind withinTable_memberType fun _ =>
    .get_bind fun _ => .refusing nofun .modify

theorem staysWithin_addReference {member : Info} : StaysWithin (addReference member) :=
  .get_bind fun _ => .ofExcept_bind withinTable_memberType fun _ =>
    .refusing nofun (.get_bind fun _ => .refusing nofun .modify)

theorem withinTable_checkDefault {test : String → Bool} {defect : Defect}
    (h : defect ≠ .differentTables) : WithinTable (e.checkDefault test defect) := by
  unfold checkDefault
  repeat' split
  · exact withinTable_ok
  · exact withinTable_error.mpr h
  · exact withinTable_ok

theorem withinTable_checkRealRange : WithinTable e.checkRealRange := by
  refine (withinTable_boundOr fun _ => withinTable_realOf).bind fun _ =>
    (withinTable_boundOr fun _ => withinTable_realOf).bind fun _ => ?_
  repeat' split
  · simp
  · exact withinTable_ok
  · exact withinTable_realOf.bind fun _ => withinTable_checkBetween

theorem withinTable_checkBoundedDefault {range : IntegerRange} {min max : Int} :
    WithinTable (checkBoundedDefault type range min max value) := by
  unfold checkBoundedDefault
  repeat' split
  · exact withinTable_checkBetween
  · exact withinTable_ok
  · simp
  · exact withinTable_integerIn.bind fun _ => withinTable_checkBetween

theorem withinTable_checkIntegerRange {range : IntegerRange} :
    WithinTable (e.checkIntegerRange type range) := by
  refine (withinTable_boundOr fun _ => withinTable_integerIn).bind fun _ =>
    (withinTable_boundOr fun _ => withinTable_integerIn).bind fun _ => ?_
  repeat' split
  · simp
  · exact withinTable_ok
  · exact withinTable_checkBoundedDefault

theorem withinTable_checkValue : WithinTable (e.checkValue type) := by
  unfold checkValue
  split
  · unfold checkEnum
    split
    · simp
    · exact withinTable_checkDefault (by simp)
  · unfold checkRefEnum
    split
    · simp
    · exact withinTable_checkDefault (by simp)
  all_goals first
    | exact withinTable_checkDefault (by simp)
    | exact withinTable_checkRealRange
    | exact withinTable_checkIntegerRange

theorem withinTable_check : WithinTable e.check := by
  unfold check
  split
  · simp
  · refine .bind ?_ fun _ => .bind ?_ fun _ => .bind ?_ fun _ => withinTable_checkValue
    · unfold checkBoundsAllowed
      repeat' split
      all_goals simp
    · unfold checkMaxGiven
      split <;> simp
    · unfold PatternRule.check
      split <;> simp

end Element

section Collections
variable {c : Collection}

theorem Head.staysWithin_declareInstances {count : Int} : StaysWithin (declareInstances count) :=
  .get_bind fun _ => .refusing nofun .modify

theorem Collection.staysWithin_add {item : Item} : StaysWithin (add item) :=
  .get_bind fun _ => .refusing nofun .modify

theorem Collection.withinTable_settle {limits : Limits} : WithinTable (c.settle limits).1 := by
  unfold Collection.settle
  split
  · simp
  · unfold Collection.checkSettled
    dsimp only
    repeat' split
    all_goals simp

theorem Group.staysWithin_addError {name : String} {description : Option String} :
    StaysWithin (addError name description) := by
  refine .get_bind fun _ => .refusing nofun ?_
  cases description with
  | none => exact .throw nofun
  | some text => exact .modify

end Collections

section Registries

theorem Table.withinTable_condition {t : Table} {name : String} :
    WithinTable (t.condition name) := by
  unfold Table.condition
  split <;> simp

theorem Table.staysWithin_addGroup {g : Group} : StaysWithin (addGroup g) :=
  .get_bind fun _ => .refusing nofun .modify

theorem Table.staysWithin_addCondition {condition : Condition} :
    StaysWithin (addCondition condition) :=
  .get_bind fun _ => .refusing nofun .modify

theorem Catalogs.staysWithin_declare {name : String} {description : Option String} :
    StaysWithin (declare name description) := by
  cases description with
  | none => exact .throw nofun
  | some text =>
    exact .get_bind fun _ => .refusing nofun (.get_bind fun _ => .refusing nofun .modify)

end Registries
end DeviceSchema
