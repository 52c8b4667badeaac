import DeviceSchema.Proofs.CrossReference.Repetition
import DeviceSchema.Proofs.Tree.Contents

/-! # Checking does not depend on the order of declarations

References and sources may point to what is declared later, so it should not matter what
is declared first.  One session is a **reordering** of another (`Session.Reordered`) if both
have the same limits, tables of the same contents, and the same paths in their indexes.

A check reads a table by its keys only, so what it finds in a session and in a reordering of it
is the same, in another order (`ranges_of_reordered`, `sourcesResolve_of_reordered`,
`unused_of_contents`).  What it stores are ranges of elements, each of which is the only one
of its element; so their order does not matter (`storeAll_of_perm`), and storing them in
reorderings gives reorderings (`storeAll_of_reordered`).  Together this is `check_reordered`.
-/
namespace DeviceSchema

/-- Both sessions hold the same, in whatever order it was declared. -/
structure Session.Reordered (s s' : Session) : Prop where
  limits : s.limits = s'.limits
  tables : ∀ kind, (s.table kind).contents = (s'.table kind).contents
  refEnums : s.refEnums.Perm s'.refEnums

/-- In both tables, no two groups have the same name. -/
def Session.Keyed (s : Session) : Prop := ∀ kind, (s.table kind).Keyed

section Loops
variable {ε α β : Type}

/-- What is found in the entries of a list does not depend on their order. -/
theorem mapM_of_perm {f : α → Except ε β} {xs xs' : List α} (h : xs.Perm xs') {ys : List β}
    (hys : xs.mapM f = .ok ys) : ∃ ys', xs'.mapM f = .ok ys' ∧ ys.Perm ys' := by
  induction h generalizing ys with
  | nil => exact ⟨ys, hys, .refl ys⟩
  | cons x _ ih =>
    rw [List.mapM_cons] at hys
    obtain ⟨y, hy, hys⟩ := except_bind_ok.mp hys
    obtain ⟨rest, hrest, hys⟩ := except_bind_ok.mp hys
    cases hys
    obtain ⟨rest', hrest', hperm⟩ := ih hrest
    exact ⟨y :: rest', by rw [List.mapM_cons, hy, hrest']; rfl, hperm.cons y⟩
  | swap x x' rest =>
    rw [List.mapM_cons] at hys
    obtain ⟨y', hy', hys⟩ := except_bind_ok.mp hys
    obtain ⟨more, hmore, hys⟩ := except_bind_ok.mp hys
    cases hys
    rw [List.mapM_cons] at hmore
    obtain ⟨y, hy, hmore⟩ := except_bind_ok.mp hmore
    obtain ⟨zs, hzs, hmore⟩ := except_bind_ok.mp hmore
    cases hmore
    refine ⟨y :: y' :: zs, ?_, .swap y y' zs⟩
    rw [List.mapM_cons, List.mapM_cons, hy, hy', hzs]
    rfl
  | trans _ _ ih ih' =>
    obtain ⟨ys', hys', hperm⟩ := ih hys
    obtain ⟨ys'', hys'', hperm'⟩ := ih' hys'
    exact ⟨ys'', hys'', hperm.trans hperm'⟩

end Loops

namespace Session
variable {s s' : Session}

theorem Reordered.symm (h : s.Reordered s') : s'.Reordered s :=
  ⟨h.limits.symm, fun kind => (h.tables kind).symm, h.refEnums.symm⟩

theorem withTable_withTable {kind : TableKind} {t t' : Table} :
    (s.withTable kind t).withTable kind t' = s.withTable kind t' := by
  cases kind <;> rfl

theorem withTable_comm {kind kind' : TableKind} {t t' : Table} (h : kind' ≠ kind) :
    (s.withTable kind t).withTable kind' t' = (s.withTable kind' t').withTable kind t := by
  cases kind <;> cases kind' <;> first | rfl | exact absurd rfl h

theorem Reordered.keyed (h : s.Reordered s') (hkeyed : s.Keyed) : s'.Keyed :=
  fun kind => (hkeyed kind).of_contents (h.tables kind)

/-- Tables of the same contents may take the place of others. -/
theorem Reordered.withTable (h : s.Reordered s') {kind : TableKind} {t t' : Table}
    (ht : t.contents = t'.contents) : (s.withTable kind t).Reordered (s'.withTable kind t') := by
  refine ⟨?_, fun other => ?_, ?_⟩
  · rw [withTable_limits, withTable_limits, h.limits]
  · by_cases hother : other = kind
    · rw [hother, withTable_table, withTable_table, ht]
    · rw [withTable_table_ne hother, withTable_table_ne hother, h.tables other]
  · rw [withTable_refEnums, withTable_refEnums]
    exact h.refEnums

end Session

theorem Path.eq_of_parts {p p' : Path} (htable : p.table = p'.table) (hnames : p.names = p'.names) :
    p = p' := by
  cases p
  cases p'
  exact congrArg₂ Path.mk htable hnames

namespace CrossReference
variable {s s' : Session}

/-! ## What a check reads -/
section Reading

theorem resolves_of_reordered (h : s.Reordered s') (hkeyed : s.Keyed) (reference : String) :
    resolves s reference = resolves s' reference := by
  unfold resolves
  cases stepsOf reference with
  | nil => rfl
  | cons name steps =>
    have hbodies : (s.setting.group? name).map Group.body = (s'.setting.group? name).map Group.body :=
      Table.body_of_contents (hkeyed .setting) (h.tables .setting) name
    dsimp only
    cases hg : s.setting.group? name with
    | none =>
      rw [hg] at hbodies
      rw [Option.map_eq_none_iff.mp hbodies.symm]
    | some g =>
      rw [hg] at hbodies
      obtain ⟨g', hg', hbody⟩ := Option.map_eq_some_iff.mp hbodies.symm
      rw [hg']
      dsimp only
      rw [hbody]

theorem rangeAt_of_reordered (h : s.Reordered s') (hkeyed : s.Keyed) :
    rangeAt s = rangeAt s' := by
  funext path
  have helement : s.elementAt? path = s'.elementAt? path :=
    Table.elementAt?_of_contents (hkeyed path.table) (h.tables path.table) path.names
  rw [rangeAt, rangeAt, ← Session.elementAt?_eq, ← Session.elementAt?_eq, helement]
  cases s'.elementAt? path with
  | none => rfl
  | some e => simp only [rangeOf, resolves_of_reordered h hkeyed, h.limits]

/-- The same ranges are found, in the order of the index. -/
theorem ranges_of_reordered (h : s.Reordered s') (hkeyed : s.Keyed) {found : List LengthRange}
    (hfound : ranges s = .ok found) : ∃ found', ranges s' = .ok found' ∧ found.Perm found' := by
  unfold ranges at hfound ⊢
  rw [rangeAt_of_reordered h hkeyed] at hfound
  exact mapM_of_perm h.refEnums hfound

theorem sourcesResolve_of_reordered (h : s.Reordered s') (hkeyed : s.Keyed)
    (hsources : SourcesResolve s) : SourcesResolve s' := by
  intro kind c hc
  have helement := Table.elementAt?_of_contents (hkeyed kind) (h.tables kind) c.source.names
  obtain ⟨e, he⟩ := hsources kind c ((Table.conditions_of_contents (h.tables kind)).mem_iff.mpr hc)
  rw [Table.elementAt?, he] at helement
  obtain ⟨node, hnode, hitem⟩ := Option.bind_eq_some_iff.mp helement.symm
  cases node with
  | group g => cases hitem
  | item i =>
    cases i with
    | list head items => cases hitem
    | element e' => exact ⟨e', hnode⟩

/-- Which conditions the nodes of a group carry is up to its body. -/
theorem carriedInTable_of_contents {t t' : Table} (h : t.contents = t'.contents) :
    (carriedInTable t).Perm (carriedInTable t') := by
  have hbodies (t : Table) : carriedInTable t = (t.groups.map Group.contents).flatMap fun c =>
      carried c.body.head.info ++ carriedByItems c.body.items := by
    rw [List.flatMap_map]
    rfl
  rw [hbodies, hbodies]
  exact (Table.perm_of_contents h).flatMap_right _

theorem unused_of_contents {t t' : Table} (h : t.contents = t'.contents) :
    (unused t).Perm (unused t') := by
  have hcarried : (fun name => !(carriedInTable t).contains name) =
      fun name => !(carriedInTable t').contains name := by
    funext name
    rw [Bool.eq_iff_iff]
    simp [(carriedInTable_of_contents h).mem_iff]
  unfold unused
  dsimp only
  rw [hcarried]
  exact ((Table.conditions_of_contents h).map Condition.name).filter _

end Reading

/-! ## What a check stores -/
section Storing
variable {range range' : LengthRange} {s₁ s₂ : Session}

theorem store_ok : store s range = .ok s₁ ↔
    ∃ t, (s.table range.path.table).updateElement? range.path.names
      (·.withRange range.min range.max) = some t ∧ s₁ = s.withTable range.path.table t := by
  unfold store
  dsimp only
  cases (s.table range.path.table).updateElement? range.path.names
    (·.withRange range.min range.max) <;> simp [eq_comm]

theorem storeAll_cons_ok {rest : List LengthRange} :
    storeAll s (range :: rest) = (.ok (), s₂) ↔
      ∃ s₁, store s range = .ok s₁ ∧ storeAll s₁ rest = (.ok (), s₂) := by
  rw [storeAll]
  cases store s range <;> simp

/-- Two ranges can be stored in either order, unless they are different ranges of one element. -/
theorem store_comm (h : range.path = range'.path → range = range')
    (h₁ : store s range = .ok s₁) (h₂ : store s₁ range' = .ok s₂) :
    ∃ s₁', store s range' = .ok s₁' ∧ store s₁' range = .ok s₂ := by
  obtain ⟨t₁, ht₁, rfl⟩ := store_ok.mp h₁
  obtain ⟨t₂, ht₂, rfl⟩ := store_ok.mp h₂
  by_cases hkind : range'.path.table = range.path.table
  · rw [hkind, Session.withTable_table] at ht₂
    -- If both are about one element, they are the same range.
    have hsame (hnames : range.path.names = range'.path.names) (e : Element) :
        (e.withRange range.min range.max).withRange range'.min range'.max =
          (e.withRange range'.min range'.max).withRange range.min range.max := by
      rw [h (Path.eq_of_parts hkind.symm hnames)]
    have hcomm := Table.updateElement?_comm (c := (·.withRange range.min range.max))
      (d := (·.withRange range'.min range'.max)) (fun _ => rfl) (fun _ => rfl) hsame
      (s.table range.path.table)
    rw [ht₁, Option.bind_some, ht₂] at hcomm
    obtain ⟨t₁', ht₁', ht₂'⟩ := Option.bind_eq_some_iff.mp hcomm.symm
    refine ⟨_, store_ok.mpr ⟨t₁', by rw [hkind]; exact ht₁', rfl⟩, store_ok.mpr ⟨t₂, ?_, ?_⟩⟩
    · rw [hkind, Session.withTable_table]
      exact ht₂'
    · rw [hkind, Session.withTable_withTable, Session.withTable_withTable]
  · rw [Session.withTable_table_ne hkind] at ht₂
    refine ⟨_, store_ok.mpr ⟨t₂, ht₂, rfl⟩, store_ok.mpr ⟨t₁, ?_, ?_⟩⟩
    · rw [Session.withTable_table_ne (Ne.symm hkind)]
      exact ht₁
    · exact Session.withTable_comm hkind

/-- **Ranges can be stored in any order**, as long as no two are of one element. -/
theorem storeAll_of_perm {found found' : List LengthRange} (h : found.Perm found')
    (honly : ∀ r ∈ found, ∀ r' ∈ found, r.path = r'.path → r = r')
    (hstored : storeAll s found = (.ok (), s₂)) : storeAll s found' = (.ok (), s₂) := by
  induction h generalizing s with
  | nil => exact hstored
  | cons range _ ih =>
    obtain ⟨s₁, h₁, hrest⟩ := storeAll_cons_ok.mp hstored
    refine storeAll_cons_ok.mpr ⟨s₁, h₁, ih (fun r hr r' hr' => ?_) hrest⟩
    exact honly r (List.mem_cons_of_mem _ hr) r' (List.mem_cons_of_mem _ hr')
  | swap range range' rest =>
    obtain ⟨s₁, h₁, hstored⟩ := storeAll_cons_ok.mp hstored
    obtain ⟨s₁₁, h₁₁, hrest⟩ := storeAll_cons_ok.mp hstored
    obtain ⟨s₁', h₁', h₁₁'⟩ := store_comm (honly _ (by simp) _ (by simp)) h₁ h₁₁
    exact storeAll_cons_ok.mpr ⟨s₁', h₁', storeAll_cons_ok.mpr ⟨s₁₁, h₁₁', hrest⟩⟩
  | trans h _ ih ih' =>
    refine ih' (fun r hr r' hr' => ?_) (ih honly hstored)
    exact honly r (h.mem_iff.mpr hr) r' (h.mem_iff.mpr hr')

/-- Storing a range in a session and in a reordering gives reorderings. -/
theorem store_of_reordered (h : s.Reordered s') (hkeyed : s.Keyed)
    (hstored : store s range = .ok s₁) :
    ∃ s₁', store s' range = .ok s₁' ∧ s₁.Reordered s₁' ∧ s₁.Keyed := by
  obtain ⟨t, ht, rfl⟩ := store_ok.mp hstored
  obtain ⟨t', ht', hcontents⟩ := Table.updateElement?_of_contents (hkeyed range.path.table)
    (h.tables range.path.table) ht
  refine ⟨_, store_ok.mpr ⟨t', ht', rfl⟩, h.withTable hcontents, fun kind => ?_⟩
  by_cases hkind : kind = range.path.table
  · rw [hkind, Session.withTable_table]
    exact (hkeyed range.path.table).updateElement? ht
  · rw [Session.withTable_table_ne hkind]
    exact hkeyed kind

theorem storeAll_of_reordered {found : List LengthRange} (h : s.Reordered s') (hkeyed : s.Keyed)
    (hstored : storeAll s found = (.ok (), s₂)) :
    ∃ s₂', storeAll s' found = (.ok (), s₂') ∧ s₂.Reordered s₂' := by
  induction found generalizing s s' with
  | nil =>
    cases hstored
    exact ⟨s', rfl, h⟩
  | cons range rest ih =>
    obtain ⟨s₁, h₁, hrest⟩ := storeAll_cons_ok.mp hstored
    obtain ⟨s₁', h₁', hreordered, hkeyed₁⟩ := store_of_reordered h hkeyed h₁
    obtain ⟨s₂', hrest', hreordered₂⟩ := ih hreordered hkeyed₁ hrest
    exact ⟨s₂', storeAll_cons_ok.mpr ⟨s₁', h₁', hrest'⟩, hreordered₂⟩

end Storing

/-! ## The check -/
section Checking
variable {p : Progress}

/-- A check that succeeds has found ranges and sources, and it has stored the ranges. -/
theorem check_found {counts : Counts} (h : (check p).result = .ok counts) :
    ∃ found, ranges p.session = .ok found ∧ SourcesResolve p.session ∧
      storeAll p.session found = (.ok (), (check p).progress.session) ∧
      counts = ⟨found.length,
        p.session.setting.conditions.length + p.session.state.conditions.length,
        (unused p.session.setting).length + (unused p.session.state).length⟩ := by
  unfold check at h ⊢
  cases hall : Checking.all p with
  | error fault q =>
    rw [hall] at h
    cases h
  | ok counts' q =>
    rw [hall] at h
    cases h
    exact Checking.all_ok hall

/-- Where ranges and sources are found, a check succeeds. -/
theorem check_finds {found : List LengthRange} (hfound : ranges p.session = .ok found)
    (hsources : SourcesResolve p.session) : ∃ counts, (check p).result = .ok counts := by
  unfold check
  cases hall : Checking.all p with
  | ok counts q => exact ⟨counts, rfl⟩
  | error fault q =>
    rcases Checking.all_error hall with ⟨hranges | hsource, -⟩ | ⟨found', hfound', hstored⟩
    · rw [hfound] at hranges
      cases hranges
    · exact absurd hsources hsource
    · obtain ⟨s', hok, -⟩ := storeAll_found hfound'
      rw [hok] at hstored
      cases hstored

/-- A check that succeeds on a session succeeds on a reordering, counts the same and leaves a
reordering. -/
theorem check_of_reordered (h : s.Reordered s') (hkeyed : s.Keyed) {events : Array Event}
    {counts : Counts} (hcheck : (check ⟨s, events⟩).result = .ok counts) (events' : Array Event) :
    (check ⟨s', events'⟩).result = .ok counts ∧
      (check ⟨s, events⟩).progress.session.Reordered (check ⟨s', events'⟩).progress.session := by
  obtain ⟨found, hfound, hsources, hstored, rfl⟩ := check_found hcheck
  obtain ⟨found', hfound', hperm⟩ := ranges_of_reordered h hkeyed hfound
  obtain ⟨counts', hcheck'⟩ := check_finds (p := ⟨s', events'⟩) hfound'
    (sourcesResolve_of_reordered h hkeyed hsources)
  obtain ⟨again, hagain, -, hstored', rfl⟩ := check_found hcheck'
  obtain rfl : found' = again := Except.ok.inj (hfound'.symm.trans hagain)
  refine ⟨?_, ?_⟩
  · have hsetting : s.setting.contents = s'.setting.contents := h.tables .setting
    have hstate : s.state.contents = s'.state.contents := h.tables .state
    rw [hcheck']
    dsimp only
    rw [hperm.length_eq, (Table.conditions_of_contents hsetting).length_eq,
      (Table.conditions_of_contents hstate).length_eq, (unused_of_contents hsetting).length_eq,
      (unused_of_contents hstate).length_eq]
  · obtain ⟨s₂, hsame, hreordered⟩ := storeAll_of_reordered h hkeyed hstored
    have hordered : storeAll s' found' = (.ok (), s₂) :=
      storeAll_of_perm hperm (fun r hr r' hr' he => (range_found hfound hr').2.2 r hr he) hsame
    rw [hstored'] at hordered
    rw [(Prod.mk.inj hordered).2]
    exact hreordered

/-- **Checking does not depend on the order of declarations.**  A session passes if and only if
its reorderings do; then the counts are the same, and the sessions that are left are
reorderings again. -/
theorem check_reordered (h : s.Reordered s') (hkeyed : s.Keyed) (events events' : Array Event) :
    match check ⟨s, events⟩, check ⟨s', events'⟩ with
    | ⟨.ok counts, q⟩, ⟨.ok counts', q'⟩ => counts = counts' ∧ q.session.Reordered q'.session
    | ⟨.error _, _⟩, ⟨.error _, _⟩ => True
    | _, _ => False := by
  rcases hcheck : check ⟨s, events⟩ with ⟨_ | counts, q⟩
  · rcases hcheck' : check ⟨s', events'⟩ with ⟨_ | counts', q'⟩
    · trivial
    · have hok' : (check ⟨s', events'⟩).result = .ok counts' := by rw [hcheck']
      have hok := (check_of_reordered h.symm (h.keyed hkeyed) hok' events).1
      rw [hcheck] at hok
      cases hok
  · have hok : (check ⟨s, events⟩).result = .ok counts := by rw [hcheck]
    obtain ⟨hok', hreordered⟩ := check_of_reordered h hkeyed hok events'
    rcases hcheck' : check ⟨s', events'⟩ with ⟨_ | counts', q'⟩
    · rw [hcheck'] at hok'
      cases hok'
    · rw [hcheck'] at hok'
      rw [hcheck, hcheck'] at hreordered
      exact ⟨(Except.ok.inj hok').symm, hreordered⟩

/-- A group with two `ref_enum` elements, whose keys are those of the other group. -/
def pick : Group where
  body := ⟨{ info := ⟨"pick", "Pick", none, none, none⟩, instances := some 1 },
    [.element {
      info := ⟨"which", "Which", none, none, some ⟨"fast", "/ports/1/speed", .equals "100"⟩⟩
      type := some .refEnum
      references := [⟨"/ports", "", none, none, none⟩] },
    .element {
      info := ⟨"other", "Other", none, none, none⟩
      type := some .refEnum
      values := [⟨"none", "None", none, none, none⟩]
      references := [⟨"/ports", "", none, none, none⟩] }]⟩

/-- A dictionary. -/
def ports (errors : List Notice) : Group where
  body := ⟨{ info := ⟨"ports", "Ports", none, none, none⟩, keys := some [] },
    [.element { info := ⟨"speed", "Speed", none, none, none⟩, type := some .uint32 }]⟩
  errors := errors

def fast : Condition := ⟨"fast", ⟨.setting, ["ports", "speed"]⟩, .equals "100"⟩

def slow : Condition := ⟨"slow", ⟨.setting, ["ports", "speed"]⟩, .equals "10"⟩

/-- A session in which all references point forward. -/
def forwards : Session where
  limits := { keyLength := 8 }
  setting := ⟨.setting, [pick, ports [⟨"down", "Down"⟩, ⟨"up", "Up"⟩]], [fast, slow]⟩
  refEnums := [⟨.setting, ["pick", "which"]⟩, ⟨.setting, ["pick", "other"]⟩]

/-- The same with everything in the opposite order. -/
def backwards : Session where
  limits := { keyLength := 8 }
  setting := ⟨.setting, [ports [⟨"up", "Up"⟩, ⟨"down", "Down"⟩], pick], [slow, fast]⟩
  refEnums := [⟨.setting, ["pick", "other"]⟩, ⟨.setting, ["pick", "which"]⟩]

theorem check_reordered_small :
    forwards.Reordered backwards ∧ forwards.Keyed ∧
      (check ⟨forwards, #[]⟩).result = .ok ⟨2, 2, 1⟩ ∧
      (check ⟨backwards, #[]⟩).result = .ok ⟨2, 2, 1⟩ ∧
      (check ⟨forwards, #[]⟩).progress.session.Reordered
        (check ⟨backwards, #[]⟩).progress.session := by
  have hports : (ports [⟨"down", "Down"⟩, ⟨"up", "Up"⟩]).contents =
      (ports [⟨"up", "Up"⟩, ⟨"down", "Down"⟩]).contents :=
    Group.contents_eq_iff.mpr ⟨rfl, .swap _ _ _⟩
  have hreordered : forwards.Reordered backwards := by
    refine ⟨rfl, fun kind => ?_, .swap _ _ _⟩
    cases kind with
    | setting =>
      refine Table.contents_eq_iff.mpr ⟨rfl, ?_, .swap _ _ _⟩
      simp only [forwards, backwards, Session.table, List.map_cons, List.map_nil, hports]
      exact .swap _ _ _
    | state => rfl
  have hkeyed : forwards.Keyed := by
    intro kind
    cases kind <;> decide
  have hforwards : (check ⟨forwards, #[]⟩).result.toOption = some ⟨2, 2, 1⟩ := by decide +kernel
  have hcheck := check_reordered hreordered hkeyed #[] #[]
  rcases hf : check ⟨forwards, #[]⟩ with ⟨_ | counts, q⟩
  · rw [hf] at hforwards
    cases hforwards
  · rcases hb : check ⟨backwards, #[]⟩ with ⟨_ | counts', q'⟩
    · rw [hf, hb] at hcheck
      exact hcheck.elim
    · rw [hf, hb] at hcheck
      rw [hf] at hforwards
      cases hforwards
      obtain ⟨rfl, hreordered'⟩ := hcheck
      exact ⟨hreordered, hkeyed, rfl, rfl, hreordered'⟩

end Checking
end CrossReference
end DeviceSchema
