import DeviceSchema.Proofs.Reading.Values
import DeviceSchema.Proofs.Tree.Nodes
import DeviceSchema.Text.Regular

/-! # Well-formed tables

A table is **well formed** under some limits when every node in it obeys the rules of
its kind.  These are the rules that generated code relies on and that nothing checks
again: how names look, that siblings are told apart, that entries of a collection are
either counted or named by keys, that an access is set and that elements pass their
check.

A node that carries a condition was given the reference to the condition's source when
the condition was attached (`Info.Attached`); where that reference leads is known only
once the whole table is.
-/
namespace DeviceSchema
open Text

section Names

/-- The characters that a name may begin with. -/
def nameStarts : List (Char × Char) := [(':', ':'), ('A', 'Z'), ('_', '_'), ('a', 'z')]

/-- The characters that a name may go on with. -/
def nameParts : List (Char × Char) := nameStarts ++ [('0', '9'), ('.', '.'), ('-', '-')]

/-- The names of nodes: `[:A-Z_a-z][:A-Z_a-z0-9.-]*`. -/
def nameForm : Regular := .seq (.oneOf nameStarts) (.star (.oneOf nameParts))

theorem inRanges_of_mem {ranges : List (Char × Char)} {low high c : Char}
    (hmem : (low, high) ∈ ranges) (hlow : low.val ≤ c.val) (hhigh : c.val ≤ high.val) :
    Regular.inRanges ranges c = true := by
  refine List.any_eq_true.mpr ⟨(low, high), hmem, ?_⟩
  rw [Bool.and_eq_true]
  exact ⟨decide_eq_true hlow, decide_eq_true hhigh⟩

theorem inRanges_nameStarts {c : Char} (h : Statement.Reading.isNameStart c = true) :
    Regular.inRanges nameStarts c = true := by
  have hcases : (decide (c = ':') || decide (c = '_') || (c.isUpper || c.isLower)) = true := h
  simp only [Bool.or_eq_true, decide_eq_true_eq] at hcases
  rcases hcases with (rfl | rfl) | hupper | hlower
  · decide
  · decide
  · obtain ⟨hlow, hhigh⟩ := of_decide_eq_true hupper
    exact inRanges_of_mem (by decide : ('A', 'Z') ∈ nameStarts) hlow hhigh
  · obtain ⟨hlow, hhigh⟩ := (Bool.and_eq_true _ _).mp hlower
    exact inRanges_of_mem (by decide : ('a', 'z') ∈ nameStarts)
      (of_decide_eq_true hlow) (of_decide_eq_true hhigh)

theorem inRanges_nameParts {c : Char} (h : Statement.Reading.isNamePart c = true) :
    Regular.inRanges nameParts c = true := by
  simp only [Statement.Reading.isNamePart, Bool.or_eq_true, decide_eq_true_eq] at h
  rcases h with ((hstart | hdigit) | rfl) | rfl
  · obtain ⟨range, hmem, hin⟩ := List.any_eq_true.mp (inRanges_nameStarts hstart)
    exact List.any_eq_true.mpr ⟨range, List.mem_append_left _ hmem, hin⟩
  · obtain ⟨hlow, hhigh⟩ := (Bool.and_eq_true _ _).mp hdigit
    exact inRanges_of_mem (by decide : ('0', '9') ∈ nameParts)
      (of_decide_eq_true hlow) (of_decide_eq_true hhigh)
  · decide
  · decide

/-- What is read as a name has the form of names. -/
theorem nameForm_matches {text : List Char}
    (h : Statement.Reading.isName false text = true) : nameForm.Matches text := by
  cases text with
  | nil => cases h
  | cons c rest =>
    simp only [Statement.Reading.isName, Bool.false_and, Bool.or_false, Bool.and_eq_true,
      List.all_eq_true] at h
    obtain ⟨hstart, hrest⟩ := h
    refine .seq (.oneOf (inRanges_nameStarts hstart)) ?_
    clear hstart
    induction rest with
    | nil => exact .stop
    | cons d rest ih =>
      refine .again (.oneOf (inRanges_nameParts (hrest d List.mem_cons_self))) ?_
      exact ih fun e he => hrest e (List.mem_cons_of_mem d he)

end Names

section Labels
open Statement.Reading

theorem doubleColons_ne_empty {plain : String} (h : plain ≠ "") : doubleColons plain ≠ "" := by
  unfold doubleColons
  intro hempty
  have hlist := congrArg String.toList hempty
  rw [String.toList_ofList] at hlist
  have hplain : plain.toList ≠ [] := by simpa using h
  obtain ⟨c, rest, hcons⟩ := List.exists_cons_of_ne_nil hplain
  rw [hcons, List.flatMap_cons] at hlist
  by_cases hc : c = ':' <;> simp [hc] at hlist

theorem doubleColons_latin1 {plain : String} (h : isLatin1 plain.toList = true) :
    isLatin1 (doubleColons plain).toList = true := by
  simp only [isLatin1, List.all_eq_true] at h ⊢
  intro c hc
  rw [doubleColons, String.toList_ofList, List.mem_flatMap] at hc
  obtain ⟨d, hd, hc⟩ := hc
  have hcd : c = d := by
    by_cases hcolon : d = ':'
    · simp_all
    · simpa [hcolon] using hc
  exact hcd ▸ h d hd

end Labels

/-- What every node says of itself. -/
structure Info.WellFormed (limits : Limits) (info : Info) : Prop where
  name_form : nameForm.Matches info.name.toList
  name_length : info.name.length ≤ limits.nameLength
  name_free : info.name.toLower ≠ "error" ∧ info.name.toLower ≠ "warning"
  description_ne : info.description ≠ ""
  description_latin1 : ∀ c ∈ info.description.toList, c.toNat ≤ 0xFF
  description_doubled : ∃ plain : String, plain.length ≤ 200 ∧
    info.description = Statement.Reading.doubleColons plain

/-- What holds of every group and list. -/
structure Collection.WellFormed (limits : Limits) (c : Collection) : Prop where
  siblings : (c.items.map Item.name).Nodup
  items_ne_nil : c.items ≠ []
  capacity_isSome : c.head.capacity.isSome
  counted_or_keyed :
    (∃ n, c.head.instances = some n ∧ 1 ≤ n ∧ c.head.keys = none) ∨
      (c.head.instances = none ∧ c.head.keys = some [])
  keys_flexible : c.head.keys.isSome → c.head.capacity = some .flexible
  keys_allowed : c.head.keys.isSome → 0 < limits.keyLength

/-- What holds of the node that some names lead to.  A list has one name before it for
the group and one for every list around it. -/
structure Node.WellFormed (limits : Limits) (names : List String) (node : Node) : Prop where
  info : node.info.WellFormed limits
  collection : ∀ c, node.collection? = some c → c.WellFormed limits
  list : ∀ head items, node = .item (.list head items) →
    head.info.access.isSome ∧ names.length - 1 ≤ 32
  element : ∀ e, node = .item (.element e) → e.info.access.isSome ∧ e.check = .ok ()

/-- What holds of a table and of all that is in it. -/
structure Table.WellFormed (limits : Limits) (t : Table) : Prop where
  groups : (t.groups.map Group.name).Nodup
  nodes : ∀ names node, (names, node) ∈ t.nodes → node.WellFormed limits names

theorem Table.WellFormed.distinct {limits : Limits} {t : Table} (h : t.WellFormed limits) :
    t.Distinct :=
  ⟨h.groups, fun names node c hn hc => ((h.nodes names node hn).collection c hc).siblings⟩

/-- The condition that the item at `here` carries is one of some conditions, with the
reference that leads from `here` to its source. -/
def Info.Attached (conditions : List Condition) (here : Path) (info : Info) : Prop :=
  ∀ a, info.condition = some a → ∃ c ∈ conditions, c.name = a.name ∧
    c.predicate = a.predicate ∧ c.source.relativeTo here = .ok a.reference

theorem Info.Attached.mono {conditions more : List Condition} {here : Path} {info : Info}
    (h : info.Attached conditions here) (hsub : ∀ c ∈ conditions, c ∈ more) :
    info.Attached more here := by
  intro a ha
  obtain ⟨c, hc, hfacts⟩ := h a ha
  exact ⟨c, hsub c hc, hfacts⟩

end DeviceSchema
