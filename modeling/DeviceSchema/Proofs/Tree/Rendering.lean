import DeviceSchema.Proofs.Tree.Reference
import Mathlib.Data.List.DropRight
import Mathlib.Data.Set.Operations

/-! # Reading paths that were written

A path is written as its table and its names with slashes between them.  A name with a slash in it
falls apart when it is read, and a last name that is empty is lost.  All other paths are **plain**:
they are read back as they were, so that no two of them are written alike, and reading gives no
others (`ofText_render_iff`).

Names may be empty where others follow them.  The slash behind the colon of the table is always
written, so the one slash that reading takes off is never one between names.
-/
namespace DeviceSchema

theorem TableKind.ofText_word (kind : TableKind) : TableKind.ofText kind.word = .ok kind := by
  cases kind <;> decide +kernel

namespace Path
variable {p q : Path} {text : String}

/-- No name has a slash in it, and the last one is not empty. -/
structure IsPlain (p : Path) : Prop where
  names : ∀ name ∈ p.names, '/' ∉ name.toList
  last : p.names.getLast? ≠ some ""

section Reading

/-- Reading drops the empty names at the end. -/
theorem namesOf_eq (text : List Char) : namesOf text =
    (((withoutSlash text).splitOn '/').rdropWhile List.isEmpty).map String.ofList := rfl

/-- What is read as names is plain. -/
theorem isPlain_namesOf (kind : TableKind) (text : List Char) : IsPlain ⟨kind, namesOf text⟩ := by
  constructor
  · intro name hname
    obtain ⟨piece, hpiece, rfl⟩ := List.mem_map.mp (namesOf_eq text ▸ hname)
    rw [String.toList_ofList]
    exact notMem_of_mem_splitOn ((List.rdropWhile_prefix _ _).mem hpiece)
  · dsimp only
    rw [namesOf_eq, List.getLast?_map]
    intro hlast
    obtain ⟨piece, hpiece, hempty⟩ := Option.map_eq_some_iff.mp hlast
    have hne := List.ne_nil_of_mem (List.mem_of_getLast? hpiece)
    have hkept := List.rdropWhile_last_not _ _ hne
    rw [List.getLast?_eq_some_getLast hne] at hpiece
    rw [Option.some.inj hpiece, List.isEmpty_iff] at hkept
    exact hkept (String.ofList_eq_empty_iff.mp hempty)

/-- **What is read is plain.** -/
theorem isPlain_of_ofText (h : ofText text = .ok p) : p.IsPlain := by
  unfold ofText at h
  dsimp only at h
  split at h
  · split at h
    · cases h
      exact isPlain_namesOf _ _
    · obtain ⟨kind, -, rfl⟩ := except_map_ok.mp h
      exact isPlain_namesOf _ _
  · cases h
    exact isPlain_namesOf _ _

end Reading

section Writing

/-- Plain names are found again between the slashes. -/
theorem namesOf_intercalate (h : p.IsPlain) :
    namesOf ('/' :: ("/".intercalate p.names).toList) = p.names := by
  by_cases hnil : p.names = []
  · rw [hnil]
    decide
  have hpieces := splitOn_intercalate hnil h.names
  rw [namesOf_eq, withoutSlash]
  generalize ("/".intercalate p.names).toList.splitOn '/' = pieces at hpieces ⊢
  have hkept : pieces.rdropWhile List.isEmpty = pieces := by
    refine List.rdropWhile_eq_self_iff.mpr fun hne hempty => h.last ?_
    rw [← hpieces, List.getLast?_map, List.getLast?_eq_some_getLast hne,
      List.isEmpty_iff.mp hempty]
    rfl
  rw [hkept, hpieces]

theorem toList_render (p : Path) :
    p.render.toList = p.table.word.toList ++ ':' :: '/' :: ("/".intercalate p.names).toList := by
  rw [render, String.toList_append, String.toList_append, List.append_assoc]
  rfl

/-- **A plain path is read back.** -/
theorem ofText_render (h : p.IsPlain) : ofText p.render = .ok p := by
  have hcolon : p.table.word.toList.all (· ≠ ':') = true := by
    cases p.table <;> decide
  rw [List.all_eq_true] at hcolon
  have hslash : p.table.word.toList.contains '/' = false := by
    cases p.table <;> decide
  have htake : p.render.toList.takeWhile (· ≠ ':') = p.table.word.toList := by
    rw [toList_render, List.takeWhile_append_of_pos hcolon]
    simp
  have hdrop : p.render.toList.dropWhile (· ≠ ':') =
      ':' :: '/' :: ("/".intercalate p.names).toList := by
    rw [toList_render, List.dropWhile_append_of_pos hcolon]
    simp
  simp only [ofText, htake, hdrop, hslash]
  rw [namesOf_intercalate h, String.ofList_toList, TableKind.ofText_word]
  rfl

end Writing

/-- **The paths that are read back as they were written are the plain ones, and they are also all
that is read from any text.**  No two of them are written alike. -/
theorem ofText_render_iff :
    (∀ p : Path, ofText p.render = .ok p ↔ p.IsPlain) ∧
    (∀ p : Path, (∃ text, ofText text = .ok p) ↔ p.IsPlain) ∧
    Set.InjOn render {p | p.IsPlain} := by
  refine ⟨fun p => ⟨isPlain_of_ofText, ofText_render⟩, fun p => ⟨?_, fun h => ?_⟩, ?_⟩
  · rintro ⟨text, h⟩
    exact isPlain_of_ofText h
  · exact ⟨p.render, ofText_render h⟩
  · intro p hp q hq heq
    have hread : (.ok p : Except Defect Path) = .ok q := by
      rw [← ofText_render hp, heq, ofText_render hq]
    exact Except.ok.inj hread

example : ofText "State://a/b//" = .ok ⟨.state, ["", "a", "b"]⟩ := by decide +kernel

end Path
end DeviceSchema
