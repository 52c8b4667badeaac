import DeviceSchema.Proofs.CrossReference.Check
import DeviceSchema.Proofs.Tree.Lookup

/-! # What a check leaves as it was

A check that fails leaves the session as it was.  One that succeeds has only stored
bounds, and of no other elements than those in the index: with their bounds **hidden**
(`unranged`) the session is the same as before.  As the check itself does not look at
bounds, a second check finds the same and stores what is there already
(`check_conservative`).

This holds of every session, also of one that a source with mistakes has left behind,
whose index may lead to elements that are not there.
-/
namespace DeviceSchema

namespace CrossReference

/-- The element at some path, without its bounds if the index names it. -/
def unranged (index : List Path) (path : Path) (e : Element) : Element :=
  if path ∈ index then { e with min := none, max := none } else e

section Unranged
variable {index : List Path}

theorem unranged_info (path : Path) (e : Element) : (unranged index path e).info = e.info := by
  unfold unranged
  split <;> rfl

theorem unranged_withRange {path : Path} (h : path ∈ index) (e : Element) (min max : Nat) :
    unranged index path (e.withRange min max) = unranged index path e := by
  rw [unranged, unranged, if_pos h, if_pos h]
  rfl

theorem rangeOf_unranged (s : Session) (path : Path) (e : Element) :
    rangeOf s path (unranged index path e) = rangeOf s path e := by
  unfold unranged
  split <;> rfl

end Unranged

/-! ## What a check looks at -/
section Reading
variable {f : Path → Element → Element} {s : Session}

theorem leadsToDictionary_mapBelow {f : List String → Element → Element} (hf : KeepsInfo f)
    (steps path : List String) (head : Head) (items : List Item) :
    leadsToDictionary steps ⟨head, Item.mapBelow f path items⟩ =
      leadsToDictionary steps ⟨head, items⟩ := by
  match steps with
  | [] => rfl
  | [_] => rfl
  | entry :: child :: rest =>
    rw [leadsToDictionary, leadsToDictionary, Collection.find?, Collection.find?]
    dsimp only
    rw [Item.find?_mapBelow hf]
    cases Item.find? items child with
    | none => rfl
    | some i =>
      cases i with
      | element e => rfl
      | list head' children =>
        simp only [Option.map_some, Option.bind_some, Item.mapAt, Item.collection?,
          leadsToDictionary_mapBelow hf rest]
        rfl

theorem resolves_mapElements (hf : ∀ path e, (f path e).info = e.info) (reference : String) :
    resolves (s.mapElements f) reference = resolves s reference := by
  unfold resolves
  cases stepsOf reference with
  | nil => rfl
  | cons group steps =>
    have hgroup := Table.group?_mapElements (t := s.setting)
      (f := fun names => f ⟨.setting, names⟩) group
    simp only [Session.mapElements, hgroup]
    cases s.setting.group? group with
    | none => rfl
    | some g =>
      exact leadsToDictionary_mapBelow (fun names => hf ⟨.setting, names⟩) steps [g.name]
        g.body.head g.body.items

theorem rangeOf_mapElements (hf : ∀ path e, (f path e).info = e.info) (path : Path) (e : Element) :
    rangeOf (s.mapElements f) path e = rangeOf s path e := by
  unfold rangeOf
  simp only [resolves_mapElements hf]
  rfl

/-- Finding ranges does not look at bounds. -/
theorem ranges_unranged (index : List Path) :
    ranges (s.mapElements (unranged index)) = ranges s := by
  have hat (path : Path) : rangeAt (s.mapElements (unranged index)) path = rangeAt s path := by
    rw [rangeAt, ← Session.elementAt?_eq, Session.elementAt?_mapElements s unranged_info,
      Session.elementAt?_eq, rangeAt]
    cases (s.resolve path).bind Node.element? with
    | none => rfl
    | some e =>
      simp only [Option.map_some, rangeOf_mapElements unranged_info, rangeOf_unranged]
  unfold ranges
  exact congrArg (s.refEnums.mapM ·) (funext hat)

theorem sourcesResolve_mapElements (hf : ∀ path e, (f path e).info = e.info) :
    SourcesResolve (s.mapElements f) ↔ SourcesResolve s := by
  refine forall_congr' fun kind => ?_
  rw [Session.mapElements_table]
  refine forall₂_congr fun c _ => ?_
  rw [Table.resolve_mapElements fun names => hf ⟨kind, names⟩]
  constructor
  · rintro ⟨e, he⟩
    obtain ⟨node, hnode, he⟩ := Option.map_eq_some_iff.mp he
    match node with
    | .group g => cases he
    | .item (.list head items) => cases he
    | .item (.element old) => exact ⟨old, hnode⟩
  · rintro ⟨e, he⟩
    exact ⟨_, by rw [he]; rfl⟩

theorem unused_mapElements {t : Table} {f : List String → Element → Element} (hf : KeepsInfo f) :
    unused (t.mapElements f) = unused t := by
  rw [unused_eq, unused_eq, Table.unattached_mapElements hf]

end Reading

/-! ## What a check stores -/
section Storing
variable {s s' : Session}

/-- Two sessions that are the same but for the bounds of the elements in an index. -/
def AgreeButBounds (index : List Path) (s s' : Session) : Prop :=
  s'.mapElements (unranged index) = s.mapElements (unranged index)

theorem agreeButBounds_withTable {kind : TableKind} {t : Table} {index : List Path}
    (h : t.mapElements (fun names => unranged index ⟨kind, names⟩) =
      (s.table kind).mapElements fun names => unranged index ⟨kind, names⟩) :
    AgreeButBounds index s (s.withTable kind t) := by
  cases kind with
  | setting =>
    rw [AgreeButBounds, Session.mapElements, Session.mapElements]
    simp only [Session.withTable, Session.table] at h ⊢
    rw [h]
  | state =>
    rw [AgreeButBounds, Session.mapElements, Session.mapElements]
    simp only [Session.withTable, Session.table] at h ⊢
    rw [h]

/-- **A range can be stored where a path leads to an element.**  No lookup but the one at
the path finds something else, and only bounds change. -/
theorem store_of_elementAt? {range : LengthRange} {e : Element}
    (h : s.elementAt? range.path = some e) :
    ∃ s', store s range = .ok s' ∧
      (∀ path, s'.elementAt? path = (s.elementAt? path).map (applyRange range path)) ∧
      (∀ index, range.path ∈ index → AgreeButBounds index s s') ∧
      (e.withRange range.min range.max = e → s' = s) := by
  obtain ⟨⟨kind, names⟩, min, max⟩ := range
  obtain ⟨t, hupdate, hreplaced⟩ : ∃ t,
      (s.table kind).updateElement? names (·.withRange min max) = some t ∧
      (s.table kind).Replaced t names e (e.withRange min max) :=
    Table.updateElement?_replaced rfl h
  dsimp only at h hupdate hreplaced ⊢
  refine ⟨s.withTable kind t, by rw [store]; dsimp only; rw [hupdate], ?_, ?_, ?_⟩
  · rintro ⟨other, path⟩
    by_cases hkind : other = kind
    · subst hkind
      have hat := hreplaced.elementAt? path
      rw [Session.elementAt?, Session.withTable_table, hat]
      by_cases hpath : path = names
      · subst hpath
        rw [if_pos rfl, h, Option.map_some, applyRange, if_pos rfl]
      · have hid : applyRange ⟨⟨other, names⟩, min, max⟩ ⟨other, path⟩ = id :=
          funext fun e => if_neg fun he => hpath (Path.mk.inj he).2
        rw [if_neg hpath, hid, Option.map_id]
        rfl
    · have hid : applyRange ⟨⟨kind, names⟩, min, max⟩ ⟨other, path⟩ = id :=
        funext fun e => if_neg fun he => hkind (Path.mk.inj he).1
      rw [hid, Option.map_id, Session.elementAt?, Session.withTable_table_ne hkind]
      rfl
  · intro index hindex
    exact agreeButBounds_withTable (hreplaced.mapElements _ (unranged_withRange hindex e min max))
  · intro hsame
    rw [hreplaced.eq hsame]
    cases kind <;> rfl

/-- **Ranges can be stored in turn where all of their paths lead to elements.** -/
theorem storeAll_of_elementAt? {index : List Path} {found : List LengthRange}
    (h : ∀ range ∈ found, range.path ∈ index ∧ ∃ e, s.elementAt? range.path = some e) :
    ∃ s', storeAll s found = (.ok (), s') ∧ AgreeButBounds index s s' ∧
      ∀ path, s'.elementAt? path = (s.elementAt? path).map (applyRanges found path) := by
  induction found generalizing s with
  | nil =>
    refine ⟨s, rfl, rfl, fun path => ?_⟩
    cases s.elementAt? path with
    | none => rfl
    | some e => rfl
  | cons range rest ih =>
    obtain ⟨hindex, e, he⟩ := h range List.mem_cons_self
    obtain ⟨s₁, hstore, hat, hagree, -⟩ := store_of_elementAt? he
    obtain ⟨s₂, hrest, hagree₂, hat₂⟩ := ih (s := s₁) fun r hr => by
      obtain ⟨hr', old, hold⟩ := h r (List.mem_cons_of_mem range hr)
      exact ⟨hr', _, by rw [hat, hold]; rfl⟩
    refine ⟨s₂, ?_, hagree₂.trans (hagree index hindex), fun path => ?_⟩
    · rw [storeAll, hstore]
      exact hrest
    · rw [hat₂, hat, Option.map_map]
      rfl

/-- Storing what is there already changes nothing. -/
theorem storeAll_self {found : List LengthRange}
    (h : ∀ range ∈ found, ∃ e, s.elementAt? range.path = some e ∧
      e.withRange range.min range.max = e) : storeAll s found = (.ok (), s) := by
  induction found with
  | nil => rfl
  | cons range rest ih =>
    obtain ⟨e, he, hsame⟩ := h range List.mem_cons_self
    obtain ⟨s', hstore, -, -, heq⟩ := store_of_elementAt? he
    rw [storeAll, hstore, heq hsame]
    exact ih fun r hr => h r (List.mem_cons_of_mem range hr)

/-- A range that was found is one of an element in the index, and it is the only one that
is found there. -/
theorem range_found {found : List LengthRange} (h : ranges s = .ok found) {range : LengthRange}
    (hmem : range ∈ found) :
    range.path ∈ s.refEnums ∧ (∃ e, s.elementAt? range.path = some e) ∧
      ∀ other ∈ found, other.path = range.path → other = range := by
  have hfound (r : LengthRange) (hr : r ∈ found) :
      r.path ∈ s.refEnums ∧ (∃ e, s.elementAt? r.path = some e) ∧ rangeAt s r.path = .ok r := by
    obtain ⟨-, -, hright⟩ := mapM_ok h
    obtain ⟨path, hpath, hat⟩ := hright r hr
    cases he : s.elementAt? path with
    | none =>
      rw [rangeAt, ← Session.elementAt?_eq, he] at hat
      cases hat
    | some e =>
      have hrange := hat
      rw [rangeAt, ← Session.elementAt?_eq, he] at hat
      obtain ⟨-, rfl⟩ := rangeOf_ok hat
      exact ⟨hpath, ⟨e, he⟩, hrange⟩
  obtain ⟨hindex, he, hat⟩ := hfound range hmem
  refine ⟨hindex, he, fun other hother hpath => ?_⟩
  have hsame := (hfound other hother).2.2
  rw [hpath, hat] at hsame
  cases hsame
  rfl

/-- **Ranges that were found can be stored, and then storing them again changes nothing.** -/
theorem storeAll_found {found : List LengthRange} (h : ranges s = .ok found) :
    ∃ s', storeAll s found = (.ok (), s') ∧ AgreeButBounds s.refEnums s s' ∧
      storeAll s' found = (.ok (), s') := by
  have hleads : ∀ range ∈ found, range.path ∈ s.refEnums ∧ ∃ e, s.elementAt? range.path = some e :=
    fun range hmem => ⟨(range_found h hmem).1, (range_found h hmem).2.1⟩
  obtain ⟨s', hstored, hagree, hat⟩ := storeAll_of_elementAt? hleads
  refine ⟨s', hstored, hagree, storeAll_self fun range hmem => ?_⟩
  obtain ⟨-, ⟨e, he⟩, honly⟩ := range_found h hmem
  -- The ranges of one path are all the same, so the last one stored is this one.
  have hbounds : applyRanges found range.path e = e.withRange range.min range.max := by
    refine applyRanges_of_mem (fun other hother hpath => ?_) ⟨range, hmem, rfl⟩
    rw [honly other hother hpath]
    exact ⟨rfl, rfl⟩
  exact ⟨_, by rw [hat, he, Option.map_some, hbounds], rfl⟩

end Storing

section Checking
variable {s s' : Session} {index : List Path}

theorem AgreeButBounds.ranges (h : AgreeButBounds index s s') : ranges s' = ranges s := by
  rw [← ranges_unranged (s := s') index, h, ranges_unranged]

theorem AgreeButBounds.sourcesResolve (h : AgreeButBounds index s s') :
    SourcesResolve s' ↔ SourcesResolve s := by
  have hinfo : ∀ path e, (unranged index path e).info = e.info := unranged_info
  rw [← sourcesResolve_mapElements (s := s') hinfo, h, sourcesResolve_mapElements hinfo]

theorem AgreeButBounds.conditions (h : AgreeButBounds index s s') :
    s'.setting.conditions = s.setting.conditions ∧ s'.state.conditions = s.state.conditions :=
  ⟨congrArg (·.setting.conditions) h, congrArg (·.state.conditions) h⟩

theorem AgreeButBounds.unused (h : AgreeButBounds index s s') :
    unused s'.setting = unused s.setting ∧ unused s'.state = unused s.state := by
  have hinfo (kind : TableKind) : KeepsInfo fun names => unranged index ⟨kind, names⟩ :=
    fun names => unranged_info ⟨kind, names⟩
  have hsetting := congrArg (fun s => CrossReference.unused s.setting) h
  have hstate := congrArg (fun s => CrossReference.unused s.state) h
  simp only [Session.mapElements, unused_mapElements (hinfo _)] at hsetting hstate
  exact ⟨hsetting, hstate⟩

/-- **A check that fails changes nothing, and one that succeeds changes only the bounds of
the elements in the index; checking again then succeeds with the same counts and changes
nothing.** -/
theorem check_conservative (p : Progress) :
    match check p with
    | ⟨.error _, q⟩ => q.session = p.session
    | ⟨.ok counts, q⟩ =>
      q.session.mapElements (unranged p.session.refEnums) =
          p.session.mapElements (unranged p.session.refEnums) ∧
        ∀ events, (check ⟨q.session, events⟩).result = .ok counts ∧
          (check ⟨q.session, events⟩).progress.session = q.session := by
  cases hall : Checking.all p with
  | error fault q =>
    rw [check, hall]
    rcases Checking.all_error hall with ⟨-, hq⟩ | ⟨found, hfound, hstored⟩
    · exact hq
    · obtain ⟨s', hok, -⟩ := storeAll_found hfound
      rw [hok] at hstored
      cases hstored
  | ok counts q =>
    rw [check, hall]
    dsimp only
    obtain ⟨found, hfound, hsources, hstored, rfl⟩ := Checking.all_ok hall
    obtain ⟨s', hok, hagree, hagain⟩ := storeAll_found hfound
    rw [hok] at hstored
    obtain rfl := (Prod.mk.inj hstored).2
    refine ⟨hagree, fun events => ?_⟩
    rw [check]
    cases hsecond : Checking.all ⟨q.session, events⟩ with
    | error fault r =>
      -- Whatever a second check could find amiss would have been so before.
      rcases Checking.all_error hsecond with ⟨hranges | hsource, -⟩ | ⟨found', hfound', hstored'⟩
      · rw [hagree.ranges, hfound] at hranges
        cases hranges
      · exact absurd (hagree.sourcesResolve.mpr hsources) hsource
      · rw [hagree.ranges, hfound] at hfound'
        cases hfound'
        rw [hagain] at hstored'
        cases hstored'
    | ok counts' r =>
      obtain ⟨found', hfound', -, hstored', rfl⟩ := Checking.all_ok hsecond
      rw [hagree.ranges, hfound] at hfound'
      cases hfound'
      rw [hagain] at hstored'
      refine ⟨?_, (Prod.mk.inj hstored').2.symm⟩
      dsimp only
      rw [hagree.conditions.1, hagree.conditions.2, hagree.unused.1, hagree.unused.2]

end Checking
end CrossReference
end DeviceSchema
