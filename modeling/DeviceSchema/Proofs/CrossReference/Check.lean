import DeviceSchema.Description
import DeviceSchema.Proofs.CrossReference.Ranges
import DeviceSchema.Text.Pattern

/-! # What a check decides

A check goes through three questions in turn: do all references resolve, are the sources
of all conditions elements, can the ranges be stored.  Nothing but logging happens
between them.  The third never fails after the first has not, so a check fails exactly
when the session is not **consistent** (`check_ok`, `check_error`).

What is left of a source that was read is checked in this way, so a source with a group
that is read without failure is a description exactly when its session is consistent, and
then the description is what the check promises (`ofSource_checked`).
-/
namespace DeviceSchema

/-- The conditions of a table that no node carries. -/
def Table.unattached (t : Table) : List Condition :=
  t.conditions.filter fun c =>
    !t.nodes.any fun placed => placed.2.info.condition.map Attachment.name = some c.name

namespace CrossReference

section Unused

theorem mem_carried {info : Info} {name : String} :
    name ∈ carried info ↔ info.condition.map Attachment.name = some name := by
  rw [carried, Option.mem_toList]

theorem carriedByItems_eq_flatMap (items : List Item) :
    carriedByItems items = items.flatMap carriedByItem := by
  induction items with
  | nil => rw [carriedByItems, List.flatMap_nil]
  | cons i rest ih => rw [carriedByItems, ih, List.flatMap_cons]

/-- Going through items finds the conditions of all nodes. -/
theorem carriedByItem_eq (i : Item) (path : List String) :
    carriedByItem i = (i.nodesAt path).flatMap fun placed => carried placed.2.info := by
  induction i using Item.induction generalizing path with
  | element e =>
    rw [carriedByItem, Item.nodesAt, List.flatMap_singleton]
    rfl
  | list head items ih =>
    rw [carriedByItem, Item.nodesAt, List.flatMap_cons, carriedByItems_eq_flatMap,
      Item.nodesBelow_eq_flatMap, List.flatMap_assoc]
    congr 1
    exact List.flatMap_congr fun i hi => ih i hi _

theorem carriedInTable_eq (t : Table) :
    carriedInTable t = t.nodes.flatMap fun placed => carried placed.2.info := by
  rw [carriedInTable, Table.nodes, List.flatMap_assoc]
  refine List.flatMap_congr fun g _ => ?_
  rw [Group.nodes, List.flatMap_cons, carriedByItems_eq_flatMap, Item.nodesBelow_eq_flatMap,
    List.flatMap_assoc]
  congr 1
  exact List.flatMap_congr fun i _ => carriedByItem_eq i _

theorem unused_eq (t : Table) : unused t = t.unattached.map Condition.name := by
  have hcarried (name : String) : (carriedInTable t).contains name =
      t.nodes.any fun placed => placed.2.info.condition.map Attachment.name = some name := by
    rw [carriedInTable_eq, Bool.eq_iff_iff]
    simp [mem_carried]
  unfold unused Table.unattached
  dsimp only
  rw [List.filter_map]
  simp only [Function.comp_def, hcarried]

end Unused

section Sources

/-- The source of every condition is an element of the condition's own table. -/
def SourcesResolve (s : Session) : Prop :=
  ∀ kind, ∀ c ∈ (s.table kind).conditions,
    ∃ e, (s.table kind).resolve c.source.names = some (.item (.element e))

theorem checkSource_ok {t : Table} {c : Condition} :
    checkSource t c = .ok () ↔ ∃ e, t.resolve c.source.names = some (.item (.element e)) := by
  unfold checkSource
  split
  · rename_i e he
    exact ⟨fun _ => ⟨e, he⟩, fun _ => rfl⟩
  · rename_i node hne hnode
    constructor
    · intro h
      cases h
    · rintro ⟨e, he⟩
      rw [hnode] at he
      exact absurd (Option.some.inj he) (hne e)
  · rename_i hnone
    constructor
    · intro h
      cases h
    · rintro ⟨e, he⟩
      rw [hnone] at he
      cases he

theorem checkSources_ok {t : Table} {n : Nat} (h : checkSources t = .ok n) :
    (∀ c ∈ t.conditions, ∃ e, t.resolve c.source.names = some (.item (.element e))) ∧
      n = t.conditions.length := by
  obtain ⟨u, hall, h⟩ := except_bind_ok.mp h
  cases h
  exact ⟨fun c hc => checkSource_ok.mp (forM_ok.mp hall c hc), rfl⟩

theorem checkSources_error {t : Table} {fault : Fault} (h : checkSources t = .error fault) :
    ¬ ∀ c ∈ t.conditions, ∃ e, t.resolve c.source.names = some (.item (.element e)) := by
  intro hall
  have hok : t.conditions.forM (checkSource t) = .ok () :=
    forM_ok.mpr fun c hc => checkSource_ok.mpr (hall c hc)
  rw [checkSources, hok] at h
  cases h

end Sources

namespace Checking
variable {p q : Progress}

theorem session_ok {s : Session} (h : session p = .ok s q) : s = p.session ∧ q = p := by
  cases h
  exact ⟨rfl, rfl⟩

theorem reporting_ok {α : Type} {result : Except Fault α} {a : α}
    (h : reporting result p = .ok a q) : result = .ok a ∧ q = p := by
  cases result with
  | ok value =>
    obtain ⟨rfl, rfl⟩ := pure_ok.mp h
    exact ⟨rfl, rfl⟩
  | error fault => cases h

theorem reporting_error {α : Type} {result : Except Fault α} {fault : Fault}
    (h : reporting result p = .error fault q) :
    result = .error fault ∧ q.session = p.session := by
  cases result with
  | ok value => cases h
  | error fault' =>
    cases h
    exact ⟨rfl, rfl⟩

/-- A step that logs: it does not fail, and it leaves the session as it is. -/
def Logs (m : Checking Unit) : Prop :=
  ∀ p, ∃ q, m p = .ok () q ∧ q.session = p.session

theorem logs_tell {event : Event} : Logs (tell event) := fun _ => ⟨_, rfl, rfl⟩

theorem logs_forM {α : Type} {f : α → Checking Unit} (h : ∀ a, Logs (f a)) (xs : List α) :
    Logs (xs.forM f) := by
  induction xs with
  | nil => exact fun p => ⟨p, rfl, rfl⟩
  | cons x rest ih =>
    intro p
    obtain ⟨q, hq, hs⟩ := h x p
    obtain ⟨r, hr, hs'⟩ := ih q
    exact ⟨r, bind_ok.mpr ⟨(), q, hq, hr⟩, hs'.trans hs⟩

theorem Logs.session {m : Checking Unit} (h : Logs m) {u : Unit} (hm : m p = .ok u q) :
    q.session = p.session := by
  obtain ⟨r, hr, hs⟩ := h p
  rw [hr] at hm
  cases hm
  exact hs

theorem Logs.ne_error {m : Checking Unit} (h : Logs m) {fault : Fault} :
    m p ≠ .error fault q := by
  obtain ⟨r, hr, -⟩ := h p
  rw [hr]
  intro he
  cases he

theorem checkTable_ok {t : Table} {n m : Nat} (h : checkTable t p = .ok (n, m) q) :
    checkSources t = .ok n ∧ m = (unused t).length ∧ q.session = p.session := by
  unfold checkTable at h
  obtain ⟨checked, p₁, h₁, h⟩ := bind_ok.mp h
  obtain ⟨u, p₂, h₂, h⟩ := bind_ok.mp h
  obtain ⟨hchecked, hp₁⟩ := reporting_ok h₁
  obtain ⟨hnm, rfl⟩ := pure_ok.mp h
  cases hnm
  refine ⟨hchecked, rfl, ?_⟩
  rw [(logs_forM (fun _ => logs_tell) _).session h₂, hp₁]

theorem checkTable_error {t : Table} {fault : Fault} (h : checkTable t p = .error fault q) :
    checkSources t = .error fault ∧ q.session = p.session := by
  rcases bind_error.mp h with h | ⟨checked, p₁, -, h⟩
  · exact reporting_error h
  · rcases bind_error.mp h with h | ⟨u, p₂, -, h⟩
    · exact absurd h (logs_forM (fun _ => logs_tell) _).ne_error
    · cases h

theorem storeRanges_ok {found : List LengthRange} {u : Unit}
    (h : storeRanges found p = .ok u q) : storeAll p.session found = (.ok (), q.session) := by
  obtain ⟨s, p₁, h₁, h⟩ := bind_ok.mp h
  obtain ⟨rfl, rfl⟩ := session_ok h₁
  cases hstore : storeAll p₁.session found with
  | mk result stored =>
    simp only [hstore] at h
    obtain ⟨u', p₂, h₂, h⟩ := bind_ok.mp h
    obtain ⟨hresult, rfl⟩ := reporting_ok h
    cases h₂
    rw [hresult]

theorem storeRanges_error {found : List LengthRange} {fault : Fault}
    (h : storeRanges found p = .error fault q) :
    storeAll p.session found = (.error fault, q.session) := by
  rcases bind_error.mp h with h | ⟨s, p₁, h₁, h⟩
  · cases h
  · obtain ⟨rfl, rfl⟩ := session_ok h₁
    cases hstore : storeAll p₁.session found with
    | mk result stored =>
      simp only [hstore] at h
      rcases bind_error.mp h with h | ⟨u', p₂, h₂, h⟩
      · cases h
      · obtain ⟨hresult, hsession⟩ := reporting_error h
        cases h₂
        rw [hresult, hsession]

/-- What a check that succeeds has found, stored and counted. -/
theorem all_ok {counts : Counts} (h : all p = .ok counts q) :
    ∃ found, ranges p.session = .ok found ∧ SourcesResolve p.session ∧
      storeAll p.session found = (.ok (), q.session) ∧
      counts = ⟨found.length,
        p.session.setting.conditions.length + p.session.state.conditions.length,
        (unused p.session.setting).length + (unused p.session.state).length⟩ := by
  unfold all at h
  obtain ⟨s, p₁, h₁, h⟩ := bind_ok.mp h
  obtain ⟨u₂, p₂, h₂, h⟩ := bind_ok.mp h
  obtain ⟨found, p₃, h₃, h⟩ := bind_ok.mp h
  obtain ⟨u₄, p₄, h₄, h⟩ := bind_ok.mp h
  obtain ⟨⟨settings, unusedSettings⟩, p₅, h₅, h⟩ := bind_ok.mp h
  obtain ⟨⟨states, unusedStates⟩, p₆, h₆, h⟩ := bind_ok.mp h
  obtain ⟨u₇, p₇, h₇, h⟩ := bind_ok.mp h
  obtain ⟨u₈, p₈, h₈, h⟩ := bind_ok.mp h
  obtain ⟨u₉, p₉, h₉, h⟩ := bind_ok.mp h
  obtain ⟨u₁₀, p₁₀, h₁₀, h⟩ := bind_ok.mp h
  obtain ⟨hs, hp₁⟩ := session_ok h₁
  obtain ⟨hfound, hp₃⟩ := reporting_ok h₃
  obtain ⟨hsettings, rfl, hs₅⟩ := checkTable_ok h₅
  obtain ⟨hstates, rfl, hs₆⟩ := checkTable_ok h₆
  obtain ⟨rfl, rfl⟩ := pure_ok.mp h
  -- Only storing changes the session, so each step sees the one that the check began with.
  have hs₂ := logs_tell.session h₂
  have hs₄ := logs_tell.session h₄
  have hs₇ := logs_tell.session h₇
  have hs₉ := (logs_forM (fun _ => logs_tell) _).session h₉
  have hs₁₀ := logs_tell.session h₁₀
  have hstored := storeRanges_ok h₈
  obtain ⟨hsetting, rfl⟩ := checkSources_ok hsettings
  obtain ⟨hstate, rfl⟩ := checkSources_ok hstates
  rw [hs₇, hs₆, hs₅, hs₄, hp₃, hs₂, hp₁, ← hs₉, ← hs₁₀] at hstored
  subst hs
  refine ⟨found, hfound, ?_, hstored, rfl⟩
  intro kind
  cases kind with
  | setting => exact hsetting
  | state => exact hstate

/-- Where the fault of a check that fails comes from, and what the check leaves. -/
theorem all_fault {fault : Fault} (h : all p = .error fault q) :
    (ranges p.session = .error fault ∨
        ∃ kind, checkSources (p.session.table kind) = .error fault) ∧ q.session = p.session ∨
      ∃ found, ranges p.session = .ok found ∧
        storeAll p.session found = (.error fault, q.session) := by
  unfold all at h
  -- Every second step logs, which cannot fail.
  rcases bind_error.mp h with h | ⟨s, p₁, h₁, h⟩
  · cases h
  obtain ⟨rfl, rfl⟩ := session_ok h₁
  rcases bind_error.mp h with h | ⟨u₂, p₂, h₂, h⟩
  · exact absurd h logs_tell.ne_error
  have hs₂ := logs_tell.session h₂
  rcases bind_error.mp h with h | ⟨found, p₃, h₃, h⟩
  · obtain ⟨hranges, hq⟩ := reporting_error h
    exact .inl ⟨.inl (hs₂ ▸ hranges), hq.trans hs₂⟩
  obtain ⟨hfound, hp₃⟩ := reporting_ok h₃
  rcases bind_error.mp h with h | ⟨u₄, p₄, h₄, h⟩
  · exact absurd h logs_tell.ne_error
  have hs₄ : p₄.session = p₁.session := by rw [logs_tell.session h₄, hp₃, hs₂]
  rcases bind_error.mp h with h | ⟨⟨settings, unusedSettings⟩, p₅, h₅, h⟩
  · obtain ⟨hsources, hq⟩ := checkTable_error h
    exact .inl ⟨.inr ⟨.setting, hsources⟩, hq.trans hs₄⟩
  have hs₅ := (checkTable_ok h₅).2.2.trans hs₄
  rcases bind_error.mp h with h | ⟨⟨states, unusedStates⟩, p₆, h₆, h⟩
  · obtain ⟨hsources, hq⟩ := checkTable_error h
    exact .inl ⟨.inr ⟨.state, hsources⟩, hq.trans hs₅⟩
  have hs₆ := (checkTable_ok h₆).2.2.trans hs₅
  rcases bind_error.mp h with h | ⟨u₇, p₇, h₇, h⟩
  · exact absurd h logs_tell.ne_error
  rcases bind_error.mp h with h | ⟨u₈, p₈, h₈, h⟩
  · have hstored := storeRanges_error h
    rw [logs_tell.session h₇, hs₆] at hstored
    exact .inr ⟨found, hfound, hstored⟩
  rcases bind_error.mp h with h | ⟨u₉, p₉, h₉, h⟩
  · exact absurd h (logs_forM (fun _ => logs_tell) _).ne_error
  rcases bind_error.mp h with h | ⟨u₁₀, p₁₀, h₁₀, h⟩
  · exact absurd h logs_tell.ne_error
  cases h

/-- What a check that fails has found, and what it leaves. -/
theorem all_error {fault : Fault} (h : all p = .error fault q) :
    (ranges p.session = .error fault ∨ ¬ SourcesResolve p.session) ∧ q.session = p.session ∨
      ∃ found, ranges p.session = .ok found ∧
        storeAll p.session found = (.error fault, q.session) := by
  rcases all_fault h with ⟨hranges | ⟨kind, hsources⟩, hq⟩ | hstored
  · exact .inl ⟨.inl hranges, hq⟩
  · exact .inl ⟨.inr fun hall => checkSources_error hsources (hall kind), hq⟩
  · exact .inr hstored

end Checking

section Deciding

/-- All references and all sources lead where they have to. -/
def Consistent (s : Session) : Prop := ReferencesResolve s ∧ SourcesResolve s

variable {p : Progress}

/-- **A check that succeeds stores the ranges of a consistent session.** -/
theorem check_ok (hs : p.session.Distinct) (hr : p.session.Recounted) {counts : Counts}
    (h : (check p).result = .ok counts) :
    Consistent p.session ∧
      (check p).progress.session =
        p.session.mapElements (fun _ => ranged p.session.limits.keyLength) ∧
      counts = ⟨p.session.refEnums.length,
        p.session.setting.conditions.length + p.session.state.conditions.length,
        p.session.setting.unattached.length + p.session.state.unattached.length⟩ := by
  unfold check at h ⊢
  cases hall : Checking.all p with
  | error fault q =>
    rw [hall] at h
    cases h
  | ok counts' q =>
    rw [hall] at h
    cases h
    obtain ⟨found, hfound, hsources, hstored, rfl⟩ := Checking.all_ok hall
    obtain ⟨hreferences, hlength⟩ := ranges_ok hs hr hfound
    rw [storeAll_ranges hs hr hfound] at hstored
    refine ⟨⟨hreferences, hsources⟩, (Prod.mk.inj hstored).2.symm, ?_⟩
    rw [hlength, unused_eq, unused_eq, List.length_map, List.length_map]

/-- **A check that fails has found a session that is not consistent.** -/
theorem check_error (hs : p.session.Distinct) (hr : p.session.Recounted) {fault : Fault}
    (h : (check p).result = .error fault) : ¬ Consistent p.session := by
  unfold check at h
  cases hall : Checking.all p with
  | ok counts q =>
    rw [hall] at h
    cases h
  | error fault' q =>
    rw [hall] at h
    cases h
    rintro ⟨hreferences, hsources⟩
    rcases Checking.all_error hall with ⟨hranges | hsource, -⟩ | ⟨found, hfound, hstored⟩
    · exact ranges_error hs hr hranges hreferences
    · exact hsource hsources
    · rw [storeAll_ranges hs hr hfound] at hstored
      cases hstored

end Deciding
end CrossReference

section Mapped
variable {f : Path → Element → Element}

theorem Table.unattached_mapElements {t : Table} {f : List String → Element → Element}
    (hf : KeepsInfo f) : (t.mapElements f).unattached = t.unattached := by
  unfold unattached
  rw [Table.nodes_mapElements hf]
  refine List.filter_congr fun c _ => ?_
  rw [List.any_map]
  congr 2
  funext placed
  rw [Function.comp_apply, Placed.mapElements, Node.mapAt_info hf]

theorem Node.isRefEnum_mapAt {f : List String → Element → Element}
    (hf : ∀ names e, (f names e).type = e.type) (names : List String) (node : Node) :
    (node.mapAt f names).isRefEnum = node.isRefEnum := by
  match node with
  | .group g => rfl
  | .item (.list head items) => rfl
  | .item (.element e) =>
    simp only [isRefEnum, mapAt, Item.mapAt, element?, Item.element?, Option.any_some, hf]

theorem Session.length_refEnums_mapElements {s : Session} (hf : ∀ path e, (f path e).info = e.info)
    (htype : ∀ path e, (f path e).type = e.type) :
    ((s.mapElements f).nodes.filter (·.2.isRefEnum)).length =
      (s.nodes.filter (·.2.isRefEnum)).length := by
  have htable (kind : TableKind) (t : Table) :
      ((t.mapElements fun names => f ⟨kind, names⟩).nodes.filter (·.2.isRefEnum)).length =
        (t.nodes.filter (·.2.isRefEnum)).length := by
    rw [Table.nodes_mapElements fun names => hf ⟨kind, names⟩, List.filter_map, List.length_map]
    congr 1
    refine List.filter_congr fun placed _ => ?_
    exact Node.isRefEnum_mapAt (fun names => htype ⟨kind, names⟩) placed.1 placed.2
  simp only [Session.nodes, List.filter_append, List.length_append]
  exact congrArg₂ (· + ·) (htable .setting s.setting) (htable .state s.state)

end Mapped

namespace Description
open CrossReference Statement

/-- What a description is whose source was read as the session `s`: it has the trees that
were read, in which every `ref_enum` element has got the least and the greatest length of
its members as its bounds, and its counts are those of its tables. -/
structure Checked (s : Session) (d : Description) : Prop where
  session : d.session = s.mapElements fun _ => ranged s.limits.keyLength
  min : ∀ kind names e, (names, .item (.element e)) ∈ (d.session.table kind).nodes →
    e.type = some .refEnum → ∃ least ∈ memberLengths d.session.limits.keyLength e,
      (∀ n ∈ memberLengths d.session.limits.keyLength e, least ≤ n) ∧
        e.min = some (toString least)
  max : ∀ kind names e, (names, .item (.element e)) ∈ (d.session.table kind).nodes →
    e.type = some .refEnum → ∃ greatest ∈ memberLengths d.session.limits.keyLength e,
      (∀ n ∈ memberLengths d.session.limits.keyLength e, n ≤ greatest) ∧
        e.max = some (toString greatest)
  /-- The lengths are those of the values and, for the references, those of their paths with the
  longest key; the sums are exact unless one exceeds a machine word. -/
  lengths : ∀ e : Element,
    (∀ r ∈ e.references, r.name.length + d.session.limits.keyLength.toNat < 2 ^ 64) →
    memberLengths d.session.limits.keyLength e = e.values.map (·.name.length) ++
      e.references.map (·.name.length + d.session.limits.keyLength.toNat)
  refEnums : d.counts.refEnums = (d.session.nodes.filter (·.2.isRefEnum)).length
  conditions : d.counts.conditions =
    d.session.setting.conditions.length + d.session.state.conditions.length
  unused : d.counts.unused =
    d.session.setting.unattached.length + d.session.state.unattached.length

/-- The elements of a session with its ranges stored. -/
theorem mem_ranged {s : Session} {kind : TableKind} {names : List String} {e : Element}
    (h : (names, .item (.element e)) ∈
      ((s.mapElements fun _ => ranged s.limits.keyLength).table kind).nodes) :
    ∃ old, (names, .item (.element old)) ∈ (s.table kind).nodes ∧
      e = ranged s.limits.keyLength old := by
  rw [Session.mapElements_table] at h
  exact (Table.mem_elements_mapElements fun _ => ranged_info s.limits.keyLength).mp h

/-- A check that succeeds makes a description of a session that was read. -/
theorem checked_of_check {s : Session} {events : Array Event} {counts : Counts}
    {name : String} {line : Nat} (hsound : s.Sound) (hrecounted : s.Recounted)
    (h : (check ⟨s, events⟩).result = .ok counts) :
    Checked s ⟨(check ⟨s, events⟩).progress.session, name, none, counts, line⟩ := by
  have hdistinct : s.Distinct := fun kind => (hsound kind).wellFormed.distinct
  obtain ⟨-, hsession, rfl⟩ := check_ok hdistinct hrecounted h
  have hinfo := fun _ : Path => ranged_info s.limits.keyLength
  have hbounds : ∀ kind names e, (names, .item (.element e)) ∈
      ((s.mapElements fun _ => ranged s.limits.keyLength).table kind).nodes →
      e.type = some .refEnum → ∃ old, old.check = .ok () ∧ old.type = some .refEnum ∧
        e = ranged s.limits.keyLength old := by
    intro kind names e hmem htype
    obtain ⟨old, hold, rfl⟩ := mem_ranged hmem
    rw [ranged_type] at htype
    exact ⟨old, (((hsound kind).nodes names _ hold).wellFormed.element old rfl).2, htype, rfl⟩
  refine ⟨hsession, ?_, ?_, fun _ => memberLengths_exact, ?_, ?_, ?_⟩
  · rw [hsession]
    intro kind names e hmem htype
    obtain ⟨old, hcheck, hold, rfl⟩ := hbounds kind names e hmem htype
    rw [memberLengths_ranged]
    exact (ranged_bounds hcheck hold s.limits.keyLength).1
  · rw [hsession]
    intro kind names e hmem htype
    obtain ⟨old, hcheck, hold, rfl⟩ := hbounds kind names e hmem htype
    rw [memberLengths_ranged]
    exact (ranged_bounds hcheck hold s.limits.keyLength).2
  · rw [hsession, Session.length_refEnums_mapElements hinfo fun _ => ranged_type s.limits.keyLength]
    exact length_index hdistinct hrecounted
  · rw [hsession]
    rfl
  · rw [hsession]
    dsimp only [Session.mapElements]
    rw [Table.unattached_mapElements fun names => hinfo ⟨.setting, names⟩,
      Table.unattached_mapElements fun names => hinfo ⟨.state, names⟩]

variable {source : String} {limits : Limits} {stream : Token.Stream}

/-- What becomes of a source with a group that is read without failure is up to the
check. -/
theorem ofSource_result [PatternCompiler] (name : String)
    (hstream : Token.Stream.ofSource source = .ok stream)
    (hread : (read stream (.ofLimits limits)).result = .ok ())
    (hgroups : (read stream (.ofLimits limits)).progress.session.groupCount ≠ 0) :
    ∃ events line, (ofSource name source limits).result =
      let outcome := check ⟨(read stream (.ofLimits limits)).progress.session, events⟩
      match outcome.result with
      | .ok counts => .ok ⟨outcome.progress.session, name, none, counts, line⟩
      | .error fault => .error (.crossReference fault line) := by
  let start : Array Event := #[].push ((Event.ofInfo "Processing RCI source").detail "source" name)
  refine ⟨start ++ (read stream (.ofLimits limits)).progress.events,
    (read stream (.ofLimits limits)).progress.stream.line, ?_⟩
  unfold ofSource Making.outcome Making.ofSource Making.ofStream Making.statements
    Making.checkGroups Making.crossReferences
  simp only [Bind.bind, EStateM.bind, Making.tell, hstream, hread, hgroups, if_false]
  cases (check ⟨(read stream (.ofLimits limits)).progress.session,
    start ++ (read stream (.ofLimits limits)).progress.events⟩).result <;> rfl

/-- Either what was read is consistent and the source is a description, or it is not and the
check rejects it. -/
theorem ofSource_cases [PatternCompiler] (name : String)
    (hstream : Token.Stream.ofSource source = .ok stream)
    (hread : (read stream (.ofLimits limits)).result = .ok ())
    (hgroups : (read stream (.ofLimits limits)).progress.session.groupCount ≠ 0) :
    (Consistent (read stream (.ofLimits limits)).progress.session ∧
      ∃ d, (ofSource name source limits).result = .ok d ∧
        Checked (read stream (.ofLimits limits)).progress.session d) ∨
    (¬ Consistent (read stream (.ofLimits limits)).progress.session ∧
      ∃ fault line, (ofSource name source limits).result = .error (.crossReference fault line)) := by
  have hsound := read_sound stream (Session.sound_ofLimits limits)
  have hrecounted := ((read_ok hread).accounted (accounted_ofLimits limits)).recounted
    read_distinct
  obtain ⟨events, line, hresult⟩ := ofSource_result name hstream hread hgroups
  generalize (read stream (.ofLimits limits)).progress.session = s at hsound hrecounted hresult ⊢
  have hdistinct : s.Distinct := fun kind => (hsound kind).wellFormed.distinct
  dsimp only at hresult
  cases hcheck : (check ⟨s, events⟩).result with
  | ok counts =>
    rw [hcheck] at hresult
    exact .inl ⟨(check_ok hdistinct hrecounted hcheck).1, _, hresult,
      checked_of_check hsound hrecounted hcheck⟩
  | error fault =>
    rw [hcheck] at hresult
    exact .inr ⟨check_error hdistinct hrecounted hcheck, fault, line, hresult⟩

end Description
end DeviceSchema
