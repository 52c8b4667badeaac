import DeviceSchema.Proofs.Text.Regular
import DeviceSchema.Proofs.Tree.Bounds
import DeviceSchema.Proofs.Tree.Changes
import DeviceSchema.Tree.Element

/-! # Which elements conform to their type

The check of an element is a chain of tests that stops at the first failure, with arms for the
eighteen types.  What it decides does not depend on the order of the tests: an element passes if
and only if it has a type and **conforms** to it (`Element.check_iff`).  `Element.Conforms` holds
the rules that all types share, and `Element.Suits` adds the rule of each type.

The rules of bounds are one rule with two parameters, what a text stands for and what a default
has to satisfy (`Element.Bounded`).  Integers, the lengths of texts, domain names and reals are
its instances.
-/
namespace DeviceSchema

/-- The text is an integer of the range, namely `value`. -/
def IntegerRange.Reads (range : IntegerRange) (text : String) (value : Int) : Prop :=
  IsInteger text.toList value ∧ range.low ≤ value ∧ value ≤ range.high

/-- The text is a real of `value` units. -/
def ReadsReal (text : String) (value : Int) : Prop :=
  Text.Real.ofText? text.toList = some value

/-- All integers of the range are words. -/
def IntegerRange.InWords (range : IntegerRange) : Prop :=
  Arithmetic.IsWord range.low ∧ Arithmetic.IsWord range.high

/-- Where a bound lies: where its text says, or at `limit` if there is none. -/
inductive BoundAt (Reads : String → Int → Prop) (limit : Int) : Option String → Int → Prop
  | missing : BoundAt Reads limit none limit
  | given {text : String} {value : Int} (h : Reads text value) :
      BoundAt Reads limit (some text) value

namespace ValueType

/-- The types whose values have a length. -/
def lengthy : List ValueType := [string, multilineString, password, fqdnv4, fqdnv6]

/-- The types of numbers, and those whose values have a length. -/
def bounded : List ValueType := [int32, uint32, hex32, prefixedHex32, float] ++ lengthy

theorem hasBounds_iff {type : ValueType} : type.hasBounds = true ↔ type ∈ bounded := by
  cases type <;> decide

theorem needsMax_iff {type : ValueType} : type.needsMax = true ↔ type ∈ lengthy := by
  cases type <;> decide

end ValueType

namespace Element

/-- The bounds can be read and are in order, and the default satisfies `Admits` for them. -/
def Bounded (e : Element) (Reads : String → Int → Prop) (low high : Int)
    (Admits : Int → Int → String → Prop) : Prop :=
  ∃ lo hi, BoundAt Reads low e.min lo ∧ BoundAt Reads high e.max hi ∧ lo ≤ hi ∧
    ∀ d ∈ e.default, Admits lo hi d

/-- The bounds are integers of a range. -/
def BoundedIn (e : Element) (range : IntegerRange) (Admits : Int → Int → String → Prop) : Prop :=
  e.Bounded range.Reads range.low range.high Admits

/-- The text is read as a value between the bounds. -/
def Within (Reads : String → Int → Prop) (lo hi : Int) (d : String) : Prop :=
  ∃ value, Reads d value ∧ lo ≤ value ∧ value ≤ hi

/-- The rule of each type. -/
def Suits (e : Element) : ValueType → Prop
  | .enum => e.values ≠ [] ∧ ∀ d ∈ e.default, ∃ v ∈ e.values, v.name = d
  | .refEnum => (e.values ≠ [] ∨ e.references ≠ []) ∧
      ∀ d ∈ e.default, (∃ v ∈ e.values, v.name = d) ∨
        ∃ r ∈ e.references, r.name.toList <+: d.toList
  | .onOff => ∀ d ∈ e.default, d = "on" ∨ d = "off"
  | .boolean => ∀ d ∈ e.default, d = "true" ∨ d = "false"
  | .ipv4 => ∀ d ∈ e.default, Address.ipv4.Matches d.toList
  | .list | .macAddress | .datetime => e.default = none
  | .float => e.Bounded ReadsReal (-Text.Real.greatest) Text.Real.greatest (Within ReadsReal)
  | .int32 => e.BoundedIn .signed32 (Within IntegerRange.signed32.Reads)
  | .uint32 | .hex32 | .prefixedHex32 =>
      e.BoundedIn .unsigned32 (Within IntegerRange.unsigned32.Reads)
  | .string | .multilineString | .password =>
      e.BoundedIn .unsigned32 fun lo hi d => lo ≤ d.length ∧ d.length ≤ hi
  | .fqdnv4 | .fqdnv6 =>
      e.BoundedIn .unsigned32 fun _ _ d => Address.domainName.Matches d.toList

/-- What a declared type asks of its element. -/
structure Conforms (e : Element) (type : ValueType) : Prop where
  bounds : type ∉ ValueType.bounded → e.min = none ∧ e.max = none
  /-- What has a length and can be written has a greatest length. -/
  max : type ∈ ValueType.lengthy → e.info.access ≠ some .readOnly → e.max ≠ none
  rule : e.rule = {} ∨ e.rule.pattern ≠ none ∧ e.rule.wording ≠ none
  value : e.Suits type

section Shared
variable {e : Element} {type : ValueType}

theorem checkBoundsAllowed_iff : e.checkBoundsAllowed type = .ok () ↔
    (type ∉ ValueType.bounded → e.min = none ∧ e.max = none) := by
  rw [← ValueType.hasBounds_iff]
  unfold checkBoundsAllowed
  split_ifs with hbounds hmin hmax
  · simp [hbounds]
  · simp [hbounds, Option.isSome_iff_ne_none.mp hmin]
  · simp [hbounds, Option.isSome_iff_ne_none.mp hmax]
  · simp_all

theorem checkMaxGiven_iff : e.checkMaxGiven type = .ok () ↔
    (type ∈ ValueType.lengthy → e.info.access ≠ some .readOnly → e.max ≠ none) := by
  rw [← ValueType.needsMax_iff]
  unfold checkMaxGiven
  split_ifs <;> simp_all

theorem checkRule_iff {rule : PatternRule} :
    rule.check = .ok () ↔ rule = {} ∨ rule.pattern ≠ none ∧ rule.wording ≠ none := by
  have hempty : rule.isEmpty = true ↔ rule = {} := by
    cases rule
    simp [PatternRule.isEmpty, and_assoc]
  rw [← hempty]
  unfold PatternRule.check
  split_ifs <;> simp_all [Option.isSome_iff_ne_none]

theorem checkDefault_iff {test : String → Bool} {defect : Defect} :
    e.checkDefault test defect = .ok () ↔ ∀ d ∈ e.default, test d = true := by
  unfold checkDefault
  split
  · split_ifs <;> simp_all
  · simp_all

end Shared

section Members
variable {e : Element} {text : String}

theorem memberIndex?_isSome_iff :
    (e.memberIndex? text).isSome = true ↔ ∃ v ∈ e.values, v.name = text := by
  simp [memberIndex?]

theorem beginsWithReference_iff :
    e.beginsWithReference text = true ↔ ∃ r ∈ e.references, r.name.toList <+: text.toList := by
  simp [beginsWithReference]

theorem checkEnum_iff : e.checkEnum = .ok () ↔
    e.values ≠ [] ∧ ∀ d ∈ e.default, ∃ v ∈ e.values, v.name = d := by
  unfold checkEnum
  split_ifs with hvalues
  · simp_all
  · simp_all [checkDefault_iff, memberIndex?_isSome_iff]

theorem checkRefEnum_iff : e.checkRefEnum = .ok () ↔
    (e.values ≠ [] ∨ e.references ≠ []) ∧
      ∀ d ∈ e.default, (∃ v ∈ e.values, v.name = d) ∨
        ∃ r ∈ e.references, r.name.toList <+: d.toList := by
  unfold checkRefEnum
  split_ifs with hmembers
  · simp_all
  · have hsome : e.values ≠ [] ∨ e.references ≠ [] := by
      simpa [Classical.or_iff_not_imp_left] using hmembers
    simp only [checkDefault_iff, Bool.or_eq_true, memberIndex?_isSome_iff,
      beginsWithReference_iff, hsome, true_and]

end Members

section Ranges
variable {e : Element} {range : IntegerRange} {text : String}

theorem boundOr_iff {Reads : String → Int → Prop} {limit value : Int} {bound : Option String}
    {read : String → Except Defect Int} (hread : ∀ text v, read text = .ok v ↔ Reads text v) :
    boundOr limit read bound = .ok value ↔ BoundAt Reads limit bound value := by
  cases bound with
  | none =>
    constructor
    · intro h
      cases h
      exact .missing
    · rintro ⟨⟩
      rfl
  | some text =>
    rw [boundOr, hread]
    constructor
    · exact .given
    · rintro ⟨⟩
      assumption

theorem checkBetween_iff {lo hi value : Int} :
    checkBetween lo hi value = .ok () ↔ lo ≤ value ∧ value ≤ hi := by
  unfold checkBetween
  split_ifs <;> simp_all

/-- **One argument for all bounds**: they are read, compared, and handed to the test of the
default. -/
theorem bounded_iff {Reads : String → Int → Prop} {low high : Int}
    {Admits : Int → Int → String → Prop} {readMin readMax : String → Except Defect Int}
    {test : Int → Int → String → Except Defect Unit}
    (hmin : ∀ text v, readMin text = .ok v ↔ Reads text v)
    (hmax : ∀ text v, readMax text = .ok v ↔ Reads text v)
    (htest : ∀ lo hi d, test lo hi d = .ok () ↔ Admits lo hi d) :
    (do
      let lo ← boundOr low readMin e.min
      let hi ← boundOr high readMax e.max
      if hi < lo then .error .minAboveMax
      else match e.default with
        | none => .ok ()
        | some d => test lo hi d) = .ok () ↔ e.Bounded Reads low high Admits := by
  simp only [except_bind_ok, boundOr_iff hmin, boundOr_iff hmax, Bounded]
  refine exists_congr fun lo => ?_
  rw [exists_and_left.symm]
  refine exists_congr fun hi => and_congr_right fun _ => and_congr_right fun _ => ?_
  split_ifs with horder
  · simp [not_le.mpr horder]
  · rw [and_iff_right (not_lt.mp horder)]
    cases e.default <;> simp [htest]

/-- The integers of a range of words are told from every other text. -/
theorem integerIn_reads_iff (hrange : range.InWords) {bound : Bound} {value : Int} :
    integerIn range bound text = .ok value ↔ range.Reads text value := by
  rw [integerIn_ok_iff]
  refine and_congr_right fun _ => and_iff_right_of_imp fun h => ?_
  exact ⟨hrange.1.1.trans h.1, h.2.trans_lt hrange.2.2⟩

theorem realOf_iff {bound : Bound} {value : Int} :
    realOf bound text = .ok value ↔ ReadsReal text value := by
  unfold realOf ReadsReal
  split <;> simp_all

theorem readWithin_iff {Reads : String → Int → Prop} {read : Except Defect Int}
    (hread : ∀ value, read = .ok value ↔ Reads text value) {lo hi : Int} :
    (do
      let value ← read
      checkBetween lo hi value) = .ok () ↔ Within Reads lo hi text := by
  simp only [except_bind_ok, hread, checkBetween_iff, Within]

theorem checkRealRange_iff : e.checkRealRange = .ok () ↔
    e.Bounded ReadsReal (-Text.Real.greatest) Text.Real.greatest (Within ReadsReal) :=
  bounded_iff (fun _ _ => realOf_iff) (fun _ _ => realOf_iff)
    fun _ _ _ => readWithin_iff fun _ => realOf_iff

theorem checkIntegerRange_iff {type : ValueType} (hrange : range.InWords)
    {Admits : Int → Int → String → Prop}
    (htest : ∀ lo hi d, checkBoundedDefault type range lo hi d = .ok () ↔ Admits lo hi d) :
    e.checkIntegerRange type range = .ok () ↔ e.BoundedIn range Admits :=
  bounded_iff (fun _ _ => integerIn_reads_iff hrange) (fun _ _ => integerIn_reads_iff hrange) htest

end Ranges

section Defaults
variable {type : ValueType} {range : IntegerRange} {lo hi : Int} {d : String}

theorem checkBoundedDefault_text (h : type.isText = true) :
    checkBoundedDefault type range lo hi d = .ok () ↔ lo ≤ d.length ∧ d.length ≤ hi := by
  rw [checkBoundedDefault, if_pos h, checkBetween_iff]

theorem checkBoundedDefault_domainName (h : type.isDomainName = true)
    (htext : type.isText = false) :
    checkBoundedDefault type range lo hi d = .ok () ↔ Address.domainName.Matches d.toList := by
  rw [← Text.Regular.accepts_iff, checkBoundedDefault, htext, if_neg Bool.false_ne_true, if_pos h,
    Address.isDomainName]
  split_ifs with haccepted <;> simp [haccepted]

theorem checkBoundedDefault_integer (hrange : range.InWords) (htext : type.isText = false)
    (hname : type.isDomainName = false) :
    checkBoundedDefault type range lo hi d = .ok () ↔ Within range.Reads lo hi d := by
  rw [checkBoundedDefault, htext, hname, if_neg Bool.false_ne_true, if_neg Bool.false_ne_true]
  exact readWithin_iff fun _ => integerIn_reads_iff hrange

end Defaults

section Check
variable (e : Element)

theorem signed32_inWords : IntegerRange.signed32.InWords := by
  simp [IntegerRange.InWords, IntegerRange.signed32, Arithmetic.IsWord]

theorem unsigned32_inWords : IntegerRange.unsigned32.InWords := by
  simp [IntegerRange.InWords, IntegerRange.unsigned32, Arithmetic.IsWord]

theorem checkValue_iff (type : ValueType) : e.checkValue type = .ok () ↔ e.Suits type := by
  cases type with
  | enum => exact checkEnum_iff
  | refEnum => exact checkRefEnum_iff
  | onOff | boolean => simp [checkValue, Suits, checkDefault_iff]
  | ipv4 => simp [checkValue, Suits, checkDefault_iff, Address.isIpv4, Text.Regular.accepts_iff]
  | list | macAddress | datetime =>
    simp [checkValue, Suits, checkDefault_iff, Option.eq_none_iff_forall_ne_some]
  | float => exact checkRealRange_iff
  | int32 =>
    exact checkIntegerRange_iff signed32_inWords fun _ _ _ =>
      checkBoundedDefault_integer signed32_inWords rfl rfl
  | uint32 | hex32 | prefixedHex32 =>
    exact checkIntegerRange_iff unsigned32_inWords fun _ _ _ =>
      checkBoundedDefault_integer unsigned32_inWords rfl rfl
  | string | multilineString | password =>
    exact checkIntegerRange_iff unsigned32_inWords fun _ _ _ => checkBoundedDefault_text rfl
  | fqdnv4 | fqdnv6 =>
    exact checkIntegerRange_iff unsigned32_inWords fun _ _ _ =>
      checkBoundedDefault_domainName rfl rfl

/-- **An element passes its check if and only if it has a type and conforms to it.** -/
theorem check_iff : e.check = .ok () ↔ ∃ type, e.type = some type ∧ e.Conforms type := by
  unfold check
  cases htype : e.type with
  | none => simp
  | some type =>
    simp only [except_seq_ok, checkBoundsAllowed_iff, checkMaxGiven_iff, checkRule_iff,
      checkValue_iff, Option.some.injEq, exists_eq_left']
    constructor
    · rintro ⟨hbounds, hmax, hrule, hvalue⟩
      exact ⟨hbounds, hmax, hrule, hvalue⟩
    · rintro ⟨hbounds, hmax, hrule, hvalue⟩
      exact ⟨hbounds, hmax, hrule, hvalue⟩

end Check
end Element
end DeviceSchema
