import DeviceSchema.Proofs.CrossReference.Check
import DeviceSchema.Proofs.Tree.Reference
import DeviceSchema.Text.Pattern

/-! # Where attached conditions lead

A node gets the reference to the source of its condition when the condition is attached,
long before it is known whether there is anything at the source.  Once a source is a
description, the reference leads somewhere: the path of the source is that of an element,
so its names are names of nodes and it does not lead down to the node that refers to it,
and a reference of that kind is followed back to where it was computed for.
-/
namespace DeviceSchema.Description
open CrossReference Statement

variable {name source : String} {limits : Limits} {d : Description}

/-- What is known of a source that is a description. -/
theorem ofSource_ok [PatternCompiler] (h : (ofSource name source limits).result = .ok d) :
    ∃ stream, Token.Stream.ofSource source = .ok stream ∧
      (read stream (.ofLimits limits)).result = .ok () ∧
      (read stream (.ofLimits limits)).progress.session.groupCount ≠ 0 := by
  unfold ofSource Making.outcome Making.ofSource Making.ofStream at h
  cases hstream : Token.Stream.ofSource source with
  | error fault =>
    rw [hstream] at h
    cases h
  | ok stream =>
    refine ⟨stream, rfl, ?_⟩
    rw [hstream] at h
    cases hread : (read stream (.ofLimits limits)).result with
    | error failure =>
      simp only [Bind.bind, EStateM.bind, Making.tell, Making.statements, hread] at h
      cases h
    | ok u =>
      refine ⟨rfl, fun hgroups => ?_⟩
      simp only [Bind.bind, EStateM.bind, Making.tell, Making.statements, hread,
        Making.checkGroups, hgroups, if_true] at h
      cases h

/-- What carries a condition was read from a node that carries it. -/
theorem mem_nodes_of_checked {s : Session} (h : Checked s d) {kind : TableKind}
    {names : List String} {node : Node} (hmem : (names, node) ∈ (d.session.table kind).nodes) :
    ∃ old, (names, old) ∈ (s.table kind).nodes ∧ node.info = old.info := by
  have hinfo : KeepsInfo fun _ => ranged s.limits.keyLength :=
    fun _ => ranged_info s.limits.keyLength
  rw [h.session, Session.mapElements_table] at hmem
  obtain ⟨old, hold, rfl⟩ := (Table.mem_nodes_mapElements hinfo).mp hmem
  exact ⟨old, hold, Node.mapAt_info hinfo old⟩

theorem resolve_of_checked {s : Session} (hs : s.Distinct) (h : Checked s d) {kind : TableKind}
    {names : List String} {e : Element}
    (he : (s.table kind).resolve names = some (.item (.element e))) :
    (d.session.table kind).resolve names =
      some (.item (.element (ranged s.limits.keyLength e))) := by
  have hinfo : KeepsInfo fun _ => ranged s.limits.keyLength :=
    fun _ => ranged_info s.limits.keyLength
  rw [h.session, Session.mapElements_table, Table.resolve_iff ((hs kind).mapElements hinfo)]
  exact (Table.mem_elements_mapElements hinfo).mpr ⟨e, (Table.resolve_iff (hs kind)).mp he, rfl⟩

/-- A reference that was attached to a node leads to an element, if its source is one. -/
theorem follow?_of_sound {s : Session} (hsound : s.Sound) {kind : TableKind}
    {names : List String} {node : Node} (hmem : (names, node) ∈ (s.table kind).nodes)
    {c : Condition} {e : Element} {reference : String}
    (he : (s.table kind).resolve c.source.names = some (.item (.element e)))
    (hreference : c.source.relativeTo ⟨kind, names⟩ = .ok reference) :
    Path.follow? names reference = some c.source.names := by
  have hdistinct : (s.table kind).Distinct := (hsound kind).wellFormed.distinct
  have hsource := (Table.resolve_iff hdistinct).mp he
  refine Path.follow?_relativeTo hreference (fun name hname => ?_) fun hleads => ?_
  · obtain ⟨placed, hplaced, rfl⟩ := Table.name_mem_path hsource hname
    exact ((hsound kind).nodes placed.1 placed.2 hplaced).name
  · have heq := Table.eq_of_isPrefix_element hdistinct hsource hmem hleads
    exact (Path.relativeTo_ok hreference).1 heq

/-- **Every condition that a node of a description carries is one of its table, and the
node's reference leads to an element of that table.** -/
theorem ofSource_attached [PatternCompiler] (h : (ofSource name source limits).result = .ok d)
    {kind : TableKind} {names : List String} {node : Node} {a : Attachment}
    (hmem : (names, node) ∈ (d.session.table kind).nodes) (ha : node.info.condition = some a) :
    ∃ c ∈ (d.session.table kind).conditions, c.name = a.name ∧ c.predicate = a.predicate ∧
      c.source.relativeTo ⟨kind, names⟩ = .ok a.reference ∧
      ∃ target e, Path.follow? names a.reference = some target ∧
        (d.session.table kind).resolve target = some (.item (.element e)) := by
  obtain ⟨stream, hstream, hread, hgroups⟩ := ofSource_ok h
  have hsound := read_sound stream (Session.sound_ofLimits limits)
  rcases ofSource_cases name hstream hread hgroups with
    ⟨hconsistent, d', hresult, hchecked⟩ | ⟨-, fault, line, hresult⟩
  · rw [h] at hresult
    cases hresult
    generalize (read stream (.ofLimits limits)).progress.session = s at hsound hconsistent hchecked
    have hdistinct : s.Distinct := fun kind => (hsound kind).wellFormed.distinct
    obtain ⟨old, hold, hinfo⟩ := mem_nodes_of_checked hchecked hmem
    obtain ⟨c, hc, hname, hpredicate, hreference⟩ :=
      ((hsound kind).nodes names old hold).attached a (hinfo ▸ ha)
    obtain ⟨e, he⟩ := hconsistent.2 kind c hc
    have hconditions : (d.session.table kind).conditions = (s.table kind).conditions := by
      rw [hchecked.session, Session.mapElements_table]
      rfl
    rw [hconditions]
    exact ⟨c, hc, hname, hpredicate, hreference, c.source.names, _,
      follow?_of_sound hsound hold he hreference, resolve_of_checked hdistinct hchecked he⟩
  · rw [h] at hresult
    cases hresult

/-- Whether a description has the list of the small source with its condition. -/
def carriesSmall (d : Description) : Bool :=
  d.session.setting.nodes.any fun placed =>
    placed.1 = ["g", "l"] ∧ placed.2.info.condition.map Attachment.reference = some "../e"

attribute [local instance] Text.Pattern.compiler in
theorem small_carries :
    (ofSource "small" smallSource smallLimits).result.toOption.any carriesSmall = true := by
  decide +kernel

attribute [local instance] Text.Pattern.compiler in
theorem ofSource_attached_small :
    ∃ d, (ofSource "small" smallSource smallLimits).result = .ok d ∧
      ∃ c ∈ (d.session.table .setting).conditions,
        c.source.relativeTo ⟨.setting, ["g", "l"]⟩ = .ok "../e" ∧
        ∃ target e, Path.follow? ["g", "l"] "../e" = some target ∧
          (d.session.table .setting).resolve target = some (.item (.element e)) := by
  have hcarries := small_carries
  cases hresult : (ofSource "small" smallSource smallLimits).result with
  | error rejection =>
    rw [hresult] at hcarries
    cases hcarries
  | ok d =>
    rw [hresult] at hcarries
    obtain ⟨⟨names, node⟩, hmem, hplaced⟩ := List.any_eq_true.mp hcarries
    obtain ⟨rfl, hreference⟩ := of_decide_eq_true hplaced
    obtain ⟨a, ha, hreference⟩ := Option.map_eq_some_iff.mp hreference
    change (["g", "l"], node) ∈ (d.session.table .setting).nodes at hmem
    obtain ⟨c, hc, -, -, hrelative, target, e, hfollow, hresolve⟩ :=
      ofSource_attached hresult hmem ha
    rw [hreference] at hrelative hfollow
    exact ⟨d, rfl, c, hc, hrelative, target, e, hfollow, hresolve⟩

end DeviceSchema.Description
