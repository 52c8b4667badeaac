import DeviceSchema.Proofs.CrossReference.Check

/-! # Which conditions are unused

The names of attached conditions are collected on a walk through the groups of a table that keeps no
places.  It misses no node and finds nothing else, so what is left of the declared conditions are
those that no node of the table **carries** (`Table.Carries`), where a group, a list and an element
count alike and however deep they are.  As declared names differ, no name is left twice
(`unused_iff`).
-/
namespace DeviceSchema

/-- Some node of the table carries the condition called `name`. -/
def Table.Carries (t : Table) (name : String) : Prop :=
  ∃ placed ∈ t.nodes, placed.2.info.condition.map Attachment.name = some name

instance (t : Table) (name : String) : Decidable (t.Carries name) :=
  inferInstanceAs (Decidable (∃ placed ∈ t.nodes, placed.2.info.condition.map _ = _))

theorem Table.mem_unattached {t : Table} {c : Condition} :
    c ∈ t.unattached ↔ c ∈ t.conditions ∧ ¬t.Carries c.name := by
  simp [unattached, Carries]

namespace CrossReference

/-- **The unused conditions of a table are those that it declares and no node in it carries: each
once, in the order of their declarations.** -/
theorem unused_iff (t : Table) (hdistinct : (t.conditions.map Condition.name).Nodup) :
    (unused t).Sublist (t.conditions.map Condition.name) ∧ (unused t).Nodup ∧
      ∀ name, name ∈ unused t ↔ (∃ c ∈ t.conditions, c.name = name) ∧ ¬t.Carries name := by
  have hsublist : (unused t).Sublist (t.conditions.map Condition.name) :=
    unused_eq t ▸ List.filter_sublist.map Condition.name
  refine ⟨hsublist, hdistinct.sublist hsublist, fun name => ?_⟩
  rw [unused_eq, List.mem_map]
  simp only [Table.mem_unattached]
  constructor
  · rintro ⟨c, ⟨hc, hfree⟩, rfl⟩
    exact ⟨⟨c, hc, rfl⟩, hfree⟩
  · rintro ⟨⟨c, hc, rfl⟩, hfree⟩
    exact ⟨c, ⟨hc, hfree⟩, rfl⟩

/-- A table with three conditions.  The first is carried inside two lists and the last by the
group. -/
def nestedTable : Table where
  kind := .setting
  groups := [{ body := {
    head := { info := ⟨"g", "G", none, none, some ⟨"shown", "l/e", .equals "on"⟩⟩ }
    items := [.list { info := ⟨"l", "L", none, none, none⟩ } [
      .list { info := ⟨"inner", "Inner", none, none, none⟩ } [
        .element { info := ⟨"e", "E", none, none, some ⟨"deep", "../x", .equals "on"⟩⟩ }]]] } }]
  conditions := ["deep", "spare", "shown"].map (⟨·, ⟨.setting, ["g", "l", "x"]⟩, .equals "on"⟩)

theorem unused_iff_nested : (nestedTable.conditions.map Condition.name).Nodup ∧
    (unused nestedTable).Nodup ∧ "spare" ∈ unused nestedTable ∧ "deep" ∉ unused nestedTable ∧
      "shown" ∉ unused nestedTable := by
  have hdistinct : (nestedTable.conditions.map Condition.name).Nodup := by decide
  obtain ⟨-, hnodup, hmem⟩ := unused_iff nestedTable hdistinct
  refine ⟨hdistinct, hnodup, (hmem "spare").mpr (by decide), ?_, ?_⟩
  · exact fun h => ((hmem "deep").mp h).2 (by decide)
  · exact fun h => ((hmem "shown").mp h).2 (by decide)

end CrossReference
end DeviceSchema
