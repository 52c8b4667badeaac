import Mathlib.Algebra.Group.Nat.Defs
import DeviceSchema.CrossReference.Check
import DeviceSchema.Proofs.Construction.Recount
import DeviceSchema.Proofs.Tree.Mapping

/-! # Ranges of `ref_enum` elements

A check first finds the **range** of every element in the index and only then stores
them, one after another, by looking each element up again.  The lemmas here say what
both halves come to.  The ranges exist if and only if every reference resolves
(`ranges_ok`, `ranges_error`), and storing them is one mapping of the tree, which gives
every `ref_enum` element its range and leaves all else alone (`storeAll_ranges`).
-/
namespace DeviceSchema

section Loops
variable {ε α β : Type}

theorem mapM_ok {f : α → Except ε β} {xs : List α} {ys : List β} (h : xs.mapM f = .ok ys) :
    ys.length = xs.length ∧ (∀ x ∈ xs, ∃ y ∈ ys, f x = .ok y) ∧
      ∀ y ∈ ys, ∃ x ∈ xs, f x = .ok y := by
  induction xs generalizing ys with
  | nil =>
    cases h
    simp
  | cons x rest ih =>
    rw [List.mapM_cons] at h
    obtain ⟨y, hy, h⟩ := except_bind_ok.mp h
    obtain ⟨ys, hys, h⟩ := except_bind_ok.mp h
    cases h
    obtain ⟨hlength, hleft, hright⟩ := ih hys
    refine ⟨congrArg (· + 1) hlength, ?_, ?_⟩
    · rintro a (_ | ⟨_, ha⟩)
      · exact ⟨y, List.mem_cons_self, hy⟩
      · obtain ⟨b, hb, hf⟩ := hleft a ha
        exact ⟨b, List.mem_cons_of_mem y hb, hf⟩
    · rintro b (_ | ⟨_, hb⟩)
      · exact ⟨x, List.mem_cons_self, hy⟩
      · obtain ⟨a, ha, hf⟩ := hright b hb
        exact ⟨a, List.mem_cons_of_mem x ha, hf⟩

theorem mapM_error {f : α → Except ε β} {xs : List α} {fault : ε}
    (h : xs.mapM f = .error fault) : ∃ x ∈ xs, f x = .error fault := by
  induction xs with
  | nil => cases h
  | cons x rest ih =>
    rw [List.mapM_cons] at h
    cases hx : f x with
    | error other =>
      rw [hx] at h
      cases h
      exact ⟨x, List.mem_cons_self, hx⟩
    | ok y =>
      rw [hx] at h
      cases hrest : rest.mapM f with
      | error other =>
        rw [hrest] at h
        cases h
        obtain ⟨x', hx', hf⟩ := ih hrest
        exact ⟨x', List.mem_cons_of_mem x hx', hf⟩
      | ok ys =>
        rw [hrest] at h
        cases h

theorem forM_ok {f : α → Except ε Unit} {xs : List α} :
    xs.forM f = .ok () ↔ ∀ x ∈ xs, f x = .ok () := by
  induction xs with
  | nil => simp [pure, Except.pure]
  | cons x rest ih =>
    rw [List.forM, except_bind_ok, List.forall_mem_cons]
    constructor
    · rintro ⟨u, hx, hrest⟩
      exact ⟨hx, ih.mp hrest⟩
    · rintro ⟨hx, hrest⟩
      exact ⟨(), hx, ih.mpr hrest⟩

end Loops

namespace CrossReference

section Storing

/-- What storing a range does to the element at some path. -/
def applyRange (range : LengthRange) (path : Path) (e : Element) : Element :=
  if path = range.path then e.withRange range.min range.max else e

/-- What storing ranges in turn does to the element at some path. -/
def applyRanges (ranges : List LengthRange) (path : Path) (e : Element) : Element :=
  ranges.foldl (fun e range => applyRange range path e) e

theorem applyRange_info (range : LengthRange) (path : Path) (e : Element) :
    (applyRange range path e).info = e.info := by
  unfold applyRange
  split <;> rfl

theorem applyRanges_of_ne {ranges : List LengthRange} {path : Path} {e : Element}
    (h : ∀ range ∈ ranges, range.path ≠ path) : applyRanges ranges path e = e := by
  induction ranges generalizing e with
  | nil => rfl
  | cons range rest ih =>
    have hne : path ≠ range.path := fun he => h range List.mem_cons_self he.symm
    rw [applyRanges, List.foldl_cons, applyRange, if_neg hne]
    exact ih fun r hr => h r (List.mem_cons_of_mem _ hr)

/-- Where all ranges of a path agree, it does not matter how many there are. -/
theorem applyRanges_of_mem {ranges : List LengthRange} {path : Path} {e : Element} {a b : Nat}
    (h : ∀ range ∈ ranges, range.path = path → range.min = a ∧ range.max = b)
    (hmem : ∃ range ∈ ranges, range.path = path) :
    applyRanges ranges path e = e.withRange a b := by
  induction ranges generalizing e with
  | nil =>
    obtain ⟨range, hrange, -⟩ := hmem
    cases hrange
  | cons range rest ih =>
    have hrest := fun r hr => h r (List.mem_cons_of_mem range hr)
    rw [applyRanges, List.foldl_cons, applyRange]
    by_cases hpath : range.path = path
    · obtain ⟨hmin, hmax⟩ := h range List.mem_cons_self hpath
      rw [if_pos hpath.symm, hmin, hmax]
      -- A further range of the same path stores the same bounds once more.
      by_cases hmore : ∃ r ∈ rest, r.path = path
      · exact ih hrest hmore
      · exact applyRanges_of_ne fun r hr he => hmore ⟨r, hr, he⟩
    · obtain ⟨r, hr, he⟩ := hmem
      rw [if_neg fun he => hpath he.symm]
      rcases List.mem_cons.mp hr with rfl | hr
      · exact absurd he hpath
      · exact ih hrest ⟨r, hr, he⟩

/-- The range of an element that is there can be stored. -/
theorem store_eq {s : Session} (hs : s.Distinct) {range : LengthRange} {e : Element}
    (he : s.resolve range.path = some (.item (.element e))) :
    store s range = .ok (s.mapElements (applyRange range)) := by
  obtain ⟨⟨kind, names⟩, min, max⟩ := range
  have hmem := (Session.resolve_iff hs).mp he
  have hf : (fun names' => applyRange ⟨⟨kind, names⟩, min, max⟩ ⟨kind, names'⟩) =
      changeAt names (·.withRange min max) := by
    funext names' e
    by_cases hnames : names' = names <;> simp [applyRange, changeAt, hnames]
  have hother (other : TableKind) (hne : other ≠ kind) :
      (fun names' => applyRange ⟨⟨kind, names⟩, min, max⟩ ⟨other, names'⟩) = fun _ e => e := by
    funext names' e
    exact if_neg fun h => hne (Path.mk.inj h).1
  unfold store
  dsimp only
  rw [Table.updateElement?_eq (hs kind) hmem, ← hf]
  cases kind with
  | setting =>
    rw [Session.mapElements, hother .state (by simp), Table.mapElements_id]
    rfl
  | state =>
    rw [Session.mapElements, hother .setting (by simp), Table.mapElements_id]
    rfl

/-- **Storing the ranges of elements that are there is one mapping of the tree.** -/
theorem storeAll_eq {s : Session} (hs : s.Distinct) {ranges : List LengthRange}
    (h : ∀ range ∈ ranges, ∃ e, s.resolve range.path = some (.item (.element e))) :
    storeAll s ranges = (.ok (), s.mapElements (applyRanges ranges)) := by
  induction ranges generalizing s with
  | nil =>
    have hid : applyRanges [] = fun _ e => e := rfl
    rw [storeAll, hid, Session.mapElements_id]
  | cons range rest ih =>
    obtain ⟨e, he⟩ := h range List.mem_cons_self
    have hinfo := applyRange_info range
    rw [storeAll, store_eq hs he]
    dsimp only
    rw [ih (hs.mapElements hinfo) fun r hr => ?_, Session.mapElements_mapElements hinfo]
    · rfl
    · obtain ⟨old, hold⟩ := h r (List.mem_cons_of_mem range hr)
      refine ⟨applyRange range r.path old, (Session.resolve_iff (hs.mapElements hinfo)).mpr ?_⟩
      rw [Session.mapElements_table]
      exact (Table.mem_elements_mapElements fun names => hinfo ⟨r.path.table, names⟩).mpr
        ⟨old, (Session.resolve_iff hs).mp hold, rfl⟩

end Storing
section Ranges

/-- The element with its range, if it is a `ref_enum`. -/
def ranged (keyLength : UInt64) (e : Element) : Element :=
  if e.type = some .refEnum then
    let lengths := memberLengths keyLength e
    e.withRange (lengths.min?.getD 0) (lengths.max?.getD 0)
  else e

/-- Every reference of every `ref_enum` element leads to a dictionary. -/
def ReferencesResolve (s : Session) : Prop :=
  ∀ kind names e, (names, .item (.element e)) ∈ (s.table kind).nodes →
    e.type = some .refEnum → ∀ r ∈ e.references, resolves s r.name = true

theorem rangeOf_ok {s : Session} {path : Path} {e : Element} {range : LengthRange}
    (h : rangeOf s path e = .ok range) :
    (∀ r ∈ e.references, resolves s r.name = true) ∧
      range = ⟨path, (memberLengths s.limits.keyLength e).min?.getD 0,
        (memberLengths s.limits.keyLength e).max?.getD 0⟩ := by
  unfold rangeOf at h
  split at h
  · cases h
  · cases h
    rename_i hnone
    exact ⟨by simpa [List.find?_eq_none] using hnone, rfl⟩

theorem rangeOf_error {s : Session} {path : Path} {e : Element} {fault : Fault}
    (h : rangeOf s path e = .error fault) : ∃ r ∈ e.references, resolves s r.name = false := by
  unfold rangeOf at h
  split at h
  · rename_i r hr
    exact ⟨r, List.mem_of_find?_eq_some hr, by simpa using List.find?_some hr⟩
  · cases h

variable {s : Session}

/-- The index leads to the `ref_enum` elements of the tables. -/
theorem resolve_of_mem_index (hs : s.Distinct) (hr : s.Recounted) {path : Path}
    (h : path ∈ s.refEnums) :
    ∃ e, s.resolve path = some (.item (.element e)) ∧ e.type = some .refEnum := by
  obtain ⟨e, hmem, htype⟩ := (hr.mem_index path).mp h
  exact ⟨e, (Session.resolve_iff hs).mpr hmem, htype⟩

theorem rangeAt_eq {path : Path} {e : Element}
    (h : s.resolve path = some (.item (.element e))) : rangeAt s path = rangeOf s path e := by
  rw [rangeAt, h]
  rfl

theorem ranges_ok (hs : s.Distinct) (hr : s.Recounted) {found : List LengthRange}
    (h : ranges s = .ok found) :
    ReferencesResolve s ∧ found.length = s.refEnums.length := by
  obtain ⟨hlength, hfound, -⟩ := mapM_ok h
  refine ⟨?_, hlength⟩
  intro kind names e hmem htype r hr'
  obtain ⟨range, -, hrange⟩ := hfound ⟨kind, names⟩ ((hr.mem_index _).mpr ⟨e, hmem, htype⟩)
  rw [rangeAt_eq ((Session.resolve_iff hs).mpr hmem)] at hrange
  exact (rangeOf_ok hrange).1 r hr'

theorem ranges_error (hs : s.Distinct) (hr : s.Recounted) {fault : Fault}
    (h : ranges s = .error fault) : ¬ ReferencesResolve s := by
  intro hall
  obtain ⟨path, hpath, hfault⟩ := mapM_error h
  obtain ⟨e, he, htype⟩ := resolve_of_mem_index hs hr hpath
  rw [rangeAt_eq he] at hfault
  obtain ⟨r, hr', hresolves⟩ := rangeOf_error hfault
  rw [hall path.table path.names e ((Session.resolve_iff hs).mp he) htype r hr'] at hresolves
  cases hresolves

/-- A range that was found is that of the `ref_enum` element at its path. -/
theorem range_of_mem (hs : s.Distinct) (hr : s.Recounted) {found : List LengthRange}
    (h : ranges s = .ok found) {range : LengthRange} (hmem : range ∈ found) :
    ∃ e, s.resolve range.path = some (.item (.element e)) ∧ e.type = some .refEnum ∧
      range.min = (memberLengths s.limits.keyLength e).min?.getD 0 ∧
      range.max = (memberLengths s.limits.keyLength e).max?.getD 0 := by
  obtain ⟨-, -, hright⟩ := mapM_ok h
  obtain ⟨path, hpath, hat⟩ := hright range hmem
  obtain ⟨e, he, htype⟩ := resolve_of_mem_index hs hr hpath
  rw [rangeAt_eq he] at hat
  obtain ⟨-, rfl⟩ := rangeOf_ok hat
  exact ⟨e, he, htype, rfl, rfl⟩

/-- A range was found for every path in the index. -/
theorem exists_range {found : List LengthRange} (h : ranges s = .ok found) {path : Path}
    {e : Element} (he : s.resolve path = some (.item (.element e))) (hindex : path ∈ s.refEnums) :
    ∃ range ∈ found, range.path = path := by
  obtain ⟨-, hleft, -⟩ := mapM_ok h
  obtain ⟨range, hmem, hat⟩ := hleft path hindex
  rw [rangeAt_eq he] at hat
  obtain ⟨-, rfl⟩ := rangeOf_ok hat
  exact ⟨_, hmem, rfl⟩

/-- **Storing the ranges that were found gives every `ref_enum` element its own.** -/
theorem storeAll_ranges (hs : s.Distinct) (hr : s.Recounted) {found : List LengthRange}
    (h : ranges s = .ok found) :
    storeAll s found = (.ok (), s.mapElements fun _ => ranged s.limits.keyLength) := by
  rw [storeAll_eq hs fun range hmem => ?_]
  · congr 1
    refine Session.mapElements_congr fun kind names e hmem => ?_
    have he : s.resolve ⟨kind, names⟩ = some (.item (.element e)) :=
      (Session.resolve_iff hs).mpr hmem
    unfold ranged
    by_cases htype : e.type = some .refEnum
    · have hindex : (⟨kind, names⟩ : Path) ∈ s.refEnums :=
        (hr.mem_index _).mpr ⟨e, hmem, htype⟩
      rw [if_pos htype]
      refine applyRanges_of_mem (fun range hin hpath => ?_) (exists_range h he hindex)
      obtain ⟨e', he', -, hmin, hmax⟩ := range_of_mem hs hr h hin
      rw [hpath, he] at he'
      cases he'
      exact ⟨hmin, hmax⟩
    · rw [if_neg htype]
      refine applyRanges_of_ne fun range hin hpath => ?_
      obtain ⟨e', he', htype', -⟩ := range_of_mem hs hr h hin
      rw [hpath, he] at he'
      cases he'
      exact htype htype'
  · obtain ⟨e, he, -⟩ := range_of_mem hs hr h hmem
    exact ⟨e, he⟩

theorem ranged_info (keyLength : UInt64) (e : Element) : (ranged keyLength e).info = e.info := by
  unfold ranged
  split <;> rfl

theorem ranged_type (keyLength : UInt64) (e : Element) : (ranged keyLength e).type = e.type := by
  unfold ranged
  split <;> rfl

theorem memberLengths_ranged (keyLength other : UInt64) (e : Element) :
    memberLengths keyLength (ranged other e) = memberLengths keyLength e := by
  unfold ranged
  split <;> rfl

/-- A sum of lengths is exact up to the size of a machine word. -/
theorem lengthWithKey_eq (keyLength : UInt64) (path : String) :
    lengthWithKey keyLength path = (path.length + keyLength.toNat) % 2 ^ 64 := by
  rw [lengthWithKey, UInt64.toNat_add, Nat.toUInt64, UInt64.toNat_ofNat', Nat.mod_add_mod]

/-- Where no sum of lengths exceeds a machine word, the lengths of the members are those of the
values and the exact sums for the references. -/
theorem memberLengths_exact {keyLength : UInt64} {e : Element}
    (h : ∀ r ∈ e.references, r.name.length + keyLength.toNat < 2 ^ 64) :
    memberLengths keyLength e =
      e.values.map (·.name.length) ++ e.references.map (·.name.length + keyLength.toNat) := by
  refine congrArg (_ ++ ·) (List.map_congr_left fun r hr => ?_)
  rw [lengthWithKey_eq, Nat.mod_eq_of_lt (h r hr)]

/-- A `ref_enum` element that passes its check has members. -/
theorem memberLengths_ne_nil {e : Element} (h : e.check = .ok ())
    (htype : e.type = some .refEnum) (keyLength : UInt64) : memberLengths keyLength e ≠ [] := by
  rw [Element.check, htype] at h
  obtain ⟨_, -, h⟩ := except_bind_ok.mp h
  obtain ⟨_, -, h⟩ := except_bind_ok.mp h
  obtain ⟨_, -, h⟩ := except_bind_ok.mp h
  unfold Element.checkValue Element.checkRefEnum at h
  intro hnil
  simp only [memberLengths, List.append_eq_nil_iff, List.map_eq_nil_iff] at hnil
  rw [hnil.1, hnil.2] at h
  cases h

/-- The bounds that a `ref_enum` element is given are the least and the greatest of the
lengths of its members. -/
theorem ranged_bounds {e : Element} (h : e.check = .ok ()) (htype : e.type = some .refEnum)
    (keyLength : UInt64) :
    (∃ least ∈ memberLengths keyLength e, (∀ n ∈ memberLengths keyLength e, least ≤ n) ∧
      (ranged keyLength e).min = some (toString least)) ∧
    ∃ greatest ∈ memberLengths keyLength e, (∀ n ∈ memberLengths keyLength e, n ≤ greatest) ∧
      (ranged keyLength e).max = some (toString greatest) := by
  have hne := memberLengths_ne_nil h htype keyLength
  obtain ⟨least, hleast⟩ := Option.isSome_iff_exists.mp (List.isSome_min?_of_ne_nil hne)
  obtain ⟨greatest, hgreatest⟩ := Option.isSome_iff_exists.mp (List.isSome_max?_of_ne_nil hne)
  obtain ⟨hmin, hbelow⟩ := List.min?_eq_some_iff.mp hleast
  obtain ⟨hmax, habove⟩ := List.max?_eq_some_iff.mp hgreatest
  refine ⟨⟨least, hmin, hbelow, ?_⟩, ⟨greatest, hmax, habove, ?_⟩⟩
  · rw [ranged, if_pos htype, Element.withRange, hleast, Option.getD_some]
  · rw [ranged, if_pos htype, Element.withRange, hgreatest, Option.getD_some]

end Ranges
end CrossReference
end DeviceSchema
