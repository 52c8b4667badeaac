import DeviceSchema.Proofs.Text.Numeral
import DeviceSchema.Proofs.Tree.Reference
import DeviceSchema.CrossReference.Reference

/-! # What references resolve

Two walks go down the setting table.  A path of names goes from a group through its lists, and a
reference does the same with an entry between any two names.  They agree: a reference resolves
if and only if its names, which are every other of its segments, lead to a dictionary, and each
entry fits the collection that the names before it lead to (`resolves_iff`).

The walk of a reference consumes two steps at a time.  So the induction is on pairs of steps, and
its statement is about the collection reached so far (`leadsToDictionary_iff`).
-/
namespace DeviceSchema

/-- The collection that names lead to from a collection. -/
def Collection.below? : List String → Collection → Option Collection
  | [], c => some c
  | name :: rest, c => ((c.find? name).bind Item.collection?).bind (below? rest)

/-- The collection that names lead to. -/
def Table.collectionAt? (t : Table) (names : List String) : Option Collection :=
  (t.resolve names).bind Node.collection?

section Names

theorem Item.walk_collection? (names : List String) (i : Item) :
    (i.walk names).bind Item.collection? = i.collection?.bind (Collection.below? names) := by
  induction names generalizing i with
  | nil => cases i <;> rfl
  | cons name rest ih =>
    cases i with
    | element e => rfl
    | list head items =>
      rw [walk, collection?, Option.bind_some, Collection.below?, Collection.find?]
      cases find? items name with
      | none => rfl
      | some child => exact ih child

theorem Table.collectionAt?_cons (t : Table) (group : String) (names : List String) :
    t.collectionAt? (group :: names) =
      (t.group? group).bind fun g => g.body.below? names := by
  unfold collectionAt?
  cases hgroup : t.group? group with
  | none => cases names <;> simp [resolve, hgroup]
  | some g =>
    cases names with
    | nil => simp [resolve, hgroup, Collection.below?]
    | cons child rest =>
      simp only [resolve, hgroup, Option.bind_eq_bind, Option.bind_some, Collection.below?]
      cases g.body.find? child with
      | none => rfl
      | some i =>
        rw [Option.bind_some, Option.bind_some, ← Item.walk_collection?]
        cases i.walk rest <;> rfl

end Names

namespace CrossReference

/-- The segments of a text: what is between its slashes after one slash at its start, if it
begins with one. -/
structure Segments (text : String) (steps : List String) : Prop where
  nonempty : steps ≠ []
  plain : ∀ step ∈ steps, '/' ∉ step.toList
  joined : text.toList = '/' :: ("/".intercalate steps).toList ∨
    text.toList.head? ≠ some '/' ∧ text = "/".intercalate steps

theorem segments_stepsOf (reference : String) : Segments reference (stepsOf reference) := by
  have hbody : ("/".intercalate (stepsOf reference)).toList =
      Path.withoutSlash reference.toList := by
    have hslash : "/".toList = ['/'] := by decide
    have hletters : String.toList ∘ String.ofList = id := funext fun _ => String.toList_ofList
    rw [String.toList_intercalate, stepsOf, List.map_map, hslash, hletters, List.map_id,
      List.intercalate_splitOn]
  constructor
  · simp [stepsOf]
  · intro step hstep
    obtain ⟨part, hpart, rfl⟩ := List.mem_map.mp hstep
    rw [String.toList_ofList]
    exact Path.notMem_of_mem_splitOn hpart
  · unfold Path.withoutSlash at hbody
    split at hbody
    · rename_i rest htext
      exact .inl (by rw [htext, hbody])
    · rename_i hother
      refine .inr ⟨fun hhead => ?_, String.toList_inj.mp hbody.symm⟩
      obtain ⟨rest, hrest⟩ := List.head?_eq_some_iff.mp hhead
      exact hother rest hrest

/-- A text has its segments and no others. -/
theorem segments_iff {text : String} {steps : List String} :
    Segments text steps ↔ steps = stepsOf text := by
  constructor
  · intro h
    have hsplit := Path.splitOn_intercalate h.nonempty h.plain
    rw [stepsOf]
    rcases h.joined with htext | ⟨hhead, rfl⟩
    · rw [htext, Path.withoutSlash, hsplit]
    · rw [Path.withoutSlash, hsplit]
      intro rest hrest
      exact hhead (by rw [hrest, List.head?_cons])
  · rintro rfl
    exact segments_stepsOf text

/-- The first of some steps, the third, and so on: the names in a reference. -/
def everyOther : List String → List String
  | [] => []
  | [step] => [step]
  | step :: _ :: rest => step :: everyOther rest

theorem everyOther_cons (step : String) (rest : List String) :
    everyOther (step :: rest) = step :: everyOther rest.tail := by
  cases rest <;> rfl

/-- An entry of a dictionary may be any key, one of an array is the number of an instance. -/
theorem isEntry_iff {c : Collection} {step : String} :
    isEntry c step = true ↔ c.head.isDictionary = true ∨
      ∃ n count, Text.IsUnsigned 10 step.toList n ∧ n < 2 ^ 32 ∧
        c.head.instances = some count ∧ 1 ≤ n ∧ n ≤ count := by
  unfold isEntry Head.isDictionary
  cases c.head.instances with
  | none => simp
  | some count =>
    cases hword : Text.word? 32 step.toList with
    | none =>
      have hunread : ∀ n, ¬ (Text.IsUnsigned 10 step.toList n ∧ n < 2 ^ 32) := by
        intro n hn
        rw [Text.word?_iff.mpr hn] at hword
        cases hword
      simp_all
    | some n =>
      obtain ⟨hread, hsmall⟩ := Text.word?_iff.mp hword
      constructor
      · intro h
        simp only [Bool.and_eq_true, decide_eq_true_eq] at h
        exact .inr ⟨n, count, hread, hsmall, rfl, h⟩
      · rintro (h | ⟨m, count', hm, hsmall', hcount, h⟩)
        · cases h
        · cases hcount
          rw [Text.word?_iff.mpr ⟨hm, hsmall'⟩] at hword
          cases hword
          simpa using h

/-- **The steps after a collection alternate between entries and names.** -/
theorem leadsToDictionary_iff {steps : List String} {c : Collection} :
    leadsToDictionary steps c = true ↔
      steps.length % 2 = 0 ∧
      (∃ d, c.below? (everyOther steps.tail) = some d ∧ d.head.isDictionary = true) ∧
      ∀ j entry, steps[j]? = some entry → j % 2 = 0 →
        ∃ d, c.below? (everyOther (steps.take j).tail) = some d ∧ isEntry d entry = true := by
  fun_induction leadsToDictionary steps c with
  | case1 c => simp [Collection.below?, everyOther]
  | case2 c step => simp
  | case3 entry child rest c ih =>
    cases hnext : (c.find? child).bind Item.collection? with
    | none => simp [everyOther_cons, Collection.below?, hnext]
    | some next =>
      have hdown (steps : List String) :
          c.below? (everyOther (child :: steps)) = next.below? (everyOther steps.tail) := by
        rw [everyOther_cons, Collection.below?, hnext, Option.bind_some]
      have hlength : (entry :: child :: rest).length % 2 = rest.length % 2 := by
        simp only [List.length_cons]
        omega
      rw [Bool.and_eq_true, ih, hlength, List.tail_cons, hdown]
      constructor
      · rintro ⟨hentry, heven, hend, hbelow⟩
        refine ⟨heven, hend, fun j step hj hparity => ?_⟩
        match j with
        | 0 =>
          cases hj
          exact ⟨c, rfl, hentry⟩
        | 1 => cases hparity
        | j + 2 =>
          rw [List.take_succ_cons, List.take_succ_cons, List.tail_cons, hdown]
          exact hbelow j step hj (by omega)
      · rintro ⟨heven, hend, hall⟩
        refine ⟨?_, heven, hend, fun j step hj hparity => ?_⟩
        · obtain ⟨d, hd, hentry⟩ := hall 0 entry rfl rfl
          cases hd
          exact hentry
        · have hstep := hall (j + 2) step hj (by omega)
          rwa [List.take_succ_cons, List.take_succ_cons, List.tail_cons, hdown] at hstep

/-- **A reference resolves if and only if its names lead to a dictionary, and every entry in it
fits the collection before it.** -/
theorem resolves_iff (session : Session) (reference : String) :
    ∃ steps, (∀ others, Segments reference others ↔ others = steps) ∧
      (resolves session reference = true ↔
        steps.length % 2 = 1 ∧
        (∃ c, session.setting.collectionAt? (everyOther steps) = some c ∧
          c.head.isDictionary = true) ∧
        ∀ j entry, steps[j]? = some entry → j % 2 = 1 →
          ∃ c, session.setting.collectionAt? (everyOther (steps.take j)) = some c ∧
            (c.head.isDictionary = true ∨
              ∃ n count, Text.IsUnsigned 10 entry.toList n ∧ n < 2 ^ 32 ∧
                c.head.instances = some count ∧ 1 ≤ n ∧ n ≤ count)) := by
  refine ⟨stepsOf reference, fun others => segments_iff, ?_⟩
  simp only [← isEntry_iff]
  unfold resolves
  generalize stepsOf reference = steps
  cases steps with
  | nil => simp
  | cons group rest =>
    have hat (steps : List String) :
        session.setting.collectionAt? (everyOther (group :: steps)) =
          (session.setting.group? group).bind fun g => g.body.below? (everyOther steps.tail) := by
      rw [everyOther_cons, Table.collectionAt?_cons]
    cases hgroup : session.setting.group? group with
    | none => simp [hat, hgroup]
    | some g =>
      have hlength : (group :: rest).length % 2 = 1 ↔ rest.length % 2 = 0 := by
        rw [List.length_cons]
        omega
      simp only [hat, hgroup, Option.bind_some, leadsToDictionary_iff, hlength]
      refine and_congr_right fun _ => and_congr_right fun _ => ?_
      -- After the group, the entries are the steps of even index.
      constructor
      · intro h j entry hj hparity
        match j with
        | 0 => cases hparity
        | j + 1 =>
          obtain ⟨c, hc, hentry⟩ := h j entry hj (by omega)
          refine ⟨c, ?_, hentry⟩
          rwa [List.take_succ_cons, hat, hgroup]
      · intro h j entry hj hparity
        obtain ⟨c, hc, hentry⟩ := h (j + 1) entry hj (by omega)
        refine ⟨c, ?_, hentry⟩
        rwa [List.take_succ_cons, hat, hgroup] at hc

end CrossReference
end DeviceSchema
