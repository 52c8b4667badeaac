import DeviceSchema.Proofs.Tree.Nodes
import DeviceSchema.Statement.Reading

/-! # Following references

A node refers to the source of its condition by a relative reference.  Whoever reads the
reference **follows** it from the node (`follow?`): a slash at the start goes to the root
of the table, every `..` goes up by one name, and the other steps go down, by names with
the instance `1` between them.

Following the reference that was computed from a node leads to where it was computed for
(`follow?_relativeTo`), as long as all steps down are names and there is one at least.
-/
namespace DeviceSchema.Path
open Statement.Reading (isName)

/-- The names that steps down go through. -/
def descend? : List String → Option (List String)
  | [] => none
  | [name] => if isName false name.toList then some [name] else none
  | name :: marker :: rest =>
    if isName false name.toList && marker = "1" then (descend? rest).map (name :: ·) else none

/-- The names at which steps arrive that start at some names. -/
def climb? (names : List String) : List String → Option (List String)
  | [] => none
  | step :: rest =>
    if step = ".." then if names.isEmpty then none else climb? names.dropLast rest
    else (descend? (step :: rest)).map (names ++ ·)

/-- The names at which a reference arrives that is followed from some names. -/
def follow? (names : List String) (reference : String) : Option (List String) :=
  match (reference.toList.splitOn '/').map String.ofList with
  | [] => none
  | step :: rest => if step = "" then descend? rest else climb? names (step :: rest)

section Names
variable {name : String}

theorem slash_notMem_of_isName (h : isName false name.toList = true) : '/' ∉ name.toList := by
  intro hmem
  cases hlist : name.toList with
  | nil =>
    rw [hlist] at hmem
    cases hmem
  | cons c rest =>
    rw [hlist] at h hmem
    simp only [isName, Bool.false_and, Bool.or_false, Bool.and_eq_true, List.all_eq_true] at h
    rcases List.mem_cons.mp hmem with rfl | hmem
    · exact absurd h.1 (by decide)
    · exact absurd (h.2 '/' hmem) (by decide)

theorem ne_up_of_isName (h : isName false name.toList = true) : name ≠ ".." := by
  rintro rfl
  exact absurd h (by decide)

theorem ne_empty_of_isName (h : isName false name.toList = true) : name ≠ "" := by
  rintro rfl
  exact absurd h (by decide)

end Names

/-- What is between separators has no separator in it. -/
theorem notMem_of_mem_splitOn {a : Char} {text part : List Char} (h : part ∈ text.splitOn a) :
    a ∉ part := by
  induction text generalizing part with
  | nil =>
    rw [List.splitOn_nil, List.mem_singleton] at h
    simp [h]
  | cons c rest ih =>
    obtain ⟨first, more, hmore⟩ := List.exists_cons_of_ne_nil (List.splitOn_ne_nil a rest)
    rw [List.splitOn_cons_eq_if_modifyHead] at h
    rw [hmore] at h ih
    by_cases hc : c = a
    · rw [if_pos (by simpa using hc)] at h
      rcases List.mem_cons.mp h with rfl | h
      · exact List.not_mem_nil
      · exact ih h
    · rw [if_neg (by simpa using hc), List.modifyHead_cons] at h
      rcases List.mem_cons.mp h with rfl | h
      · rw [List.mem_cons, not_or]
        exact ⟨Ne.symm hc, ih List.mem_cons_self⟩
      · exact ih (List.mem_cons_of_mem first h)

/-- Steps without slashes are found again between the slashes. -/
theorem splitOn_intercalate {steps : List String} (hne : steps ≠ [])
    (h : ∀ step ∈ steps, '/' ∉ step.toList) :
    (("/".intercalate steps).toList.splitOn '/').map String.ofList = steps := by
  have hslash : "/".toList = ['/'] := by decide
  rw [String.toList_intercalate, hslash, List.splitOn_intercalate]
  · rw [List.map_map]
    refine (List.map_congr_left fun step _ => ?_).trans (List.map_id steps)
    exact String.ofList_toList
  · intro letters hletters
    obtain ⟨step, hstep, rfl⟩ := List.mem_map.mp hletters
    exact h step hstep
  · simpa using hne

section Descending
variable {names : List String}

theorem mem_intersperse {sep x : String} (h : x ∈ names.intersperse sep) : x ∈ names ∨ x = sep := by
  induction names with
  | nil => cases h
  | cons name rest ih =>
    cases rest with
    | nil => exact .inl h
    | cons next rest =>
      rw [List.intersperse_cons_cons] at h
      rcases List.mem_cons.mp h with rfl | h
      · exact .inl List.mem_cons_self
      · rcases List.mem_cons.mp h with rfl | h
        · exact .inr rfl
        · exact (ih h).imp_left (List.mem_cons_of_mem name)

theorem intersperse_ne_nil {sep : String} (hne : names ≠ []) : names.intersperse sep ≠ [] := by
  intro hnil
  have hlength := congrArg List.length hnil
  rw [List.length_intersperse, List.length_nil] at hlength
  have := List.length_pos_of_ne_nil hne
  omega

/-- Steps down have no slash in them, and none is empty. -/
theorem plain_intersperse (h : ∀ name ∈ names, isName false name.toList = true) {step : String}
    (hstep : step ∈ names.intersperse "1") : '/' ∉ step.toList ∧ step ≠ "" := by
  rcases mem_intersperse hstep with hstep | rfl
  · exact ⟨slash_notMem_of_isName (h step hstep), ne_empty_of_isName (h step hstep)⟩
  · decide

theorem descend?_intersperse (hne : names ≠ [])
    (h : ∀ name ∈ names, isName false name.toList = true) :
    descend? (names.intersperse "1") = some names := by
  induction names with
  | nil => exact absurd rfl hne
  | cons name rest ih =>
    have hname := h name List.mem_cons_self
    cases rest with
    | nil => rw [List.intersperse_singleton, descend?, if_pos hname]
    | cons next rest =>
      have hrest := ih (by simp) fun n hn => h n (List.mem_cons_of_mem name hn)
      rw [List.intersperse_cons_cons, descend?, hname, hrest]
      rfl

/-- Going up as often as there are steps up. -/
theorem climb?_replicate {k : Nat} (hk : k ≤ names.length) (steps : List String) :
    climb? names (List.replicate k ".." ++ steps) =
      climb? (names.take (names.length - k)) steps := by
  induction k generalizing names with
  | zero => rw [List.replicate_zero, List.nil_append, Nat.sub_zero, List.take_length]
  | succ k ih =>
    have hne : names.isEmpty = false := by
      cases names with
      | nil => simp at hk
      | cons name rest => rfl
    rw [List.replicate_succ, List.cons_append, climb?, if_pos rfl, hne, if_neg (by decide),
      ih (by rw [List.length_dropLast]; omega), List.length_dropLast, List.dropLast_eq_take,
      List.take_take]
    congr 2
    omega

theorem climb?_intersperse {down : List String} (hne : down ≠ [])
    (h : ∀ name ∈ down, isName false name.toList = true) :
    climb? names (down.intersperse "1") = some (names ++ down) := by
  have hdescend := descend?_intersperse hne h
  obtain ⟨name, rest, rfl⟩ := List.exists_cons_of_ne_nil hne
  have hname := ne_up_of_isName (h name List.mem_cons_self)
  obtain ⟨more, hmore⟩ : ∃ more, (name :: rest).intersperse "1" = name :: more := by
    cases rest with
    | nil => exact ⟨[], rfl⟩
    | cons next rest => exact ⟨_, List.intersperse_cons_cons⟩
  rw [hmore] at hdescend ⊢
  rw [climb?, if_neg hname, hdescend, Option.map_some]

end Descending

section Common

theorem commonLength_le (as bs : List String) :
    commonLength as bs ≤ as.length ∧ commonLength as bs ≤ bs.length := by
  fun_induction commonLength as bs with
  | case1 a as bs ih =>
    simp only [List.length_cons]
    omega
  | case2 => simp
  | case3 => simp

theorem take_commonLength (as bs : List String) :
    as.take (commonLength as bs) = bs.take (commonLength as bs) := by
  fun_induction commonLength as bs with
  | case1 a as bs ih => rw [List.take_succ_cons, List.take_succ_cons, ih]
  | case2 => simp
  | case3 => simp

end Common

section Following
variable {names : List String}

/-- A reference that begins with a slash is followed from the root. -/
theorem follow?_root {steps : List String} (h : ∀ step ∈ steps, '/' ∉ step.toList) :
    follow? names ("/".intercalate ("" :: steps)) = descend? steps := by
  have hslash : ∀ step ∈ "" :: steps, '/' ∉ step.toList := by
    rw [List.forall_mem_cons]
    exact ⟨by decide, h⟩
  rw [follow?, splitOn_intercalate (by simp) hslash]
  exact if_pos rfl

/-- A reference without empty steps is followed from where it is. -/
theorem follow?_climb {steps : List String} (hne : steps ≠ [])
    (h : ∀ step ∈ steps, '/' ∉ step.toList ∧ step ≠ "") :
    follow? names ("/".intercalate steps) = climb? names steps := by
  rw [follow?, splitOn_intercalate hne fun step hstep => (h step hstep).1]
  obtain ⟨step, rest, rfl⟩ := List.exists_cons_of_ne_nil hne
  exact if_neg (h step List.mem_cons_self).2

/-- A place has no reference from itself. -/
theorem relativeTo_ok {source anchor : Path} {reference : String}
    (h : source.relativeTo anchor = .ok reference) :
    source.names ≠ anchor.names ∧ reference = "/".intercalate (source.stepsFrom anchor) := by
  unfold relativeTo at h
  split at h
  · cases h
  · split at h
    · cases h
    · rename_i hnames
      cases h
      exact ⟨hnames, rfl⟩

/-- **Following the reference from a node to a place leads to the place.** -/
theorem follow?_relativeTo {source anchor : Path} {reference : String}
    (h : source.relativeTo anchor = .ok reference)
    (hnames : ∀ name ∈ source.names, isName false name.toList = true)
    (hleads : ¬ source.names <+: anchor.names) :
    follow? anchor.names reference = some source.names := by
  obtain ⟨-, hanchor⟩ := commonLength_le source.names anchor.names
  have htake := take_commonLength source.names anchor.names
  obtain ⟨-, rfl⟩ := relativeTo_ok h
  unfold stepsFrom
  dsimp only
  generalize commonLength source.names anchor.names = common at hanchor htake ⊢
  -- With no step down, the place would be above the anchor.
  have hdown : source.names.drop common ≠ [] := by
    intro hnil
    rw [List.take_of_length_le (List.drop_eq_nil_iff.mp hnil)] at htake
    exact hleads (htake ▸ List.take_prefix common anchor.names)
  have hdownNames : ∀ name ∈ source.names.drop common, isName false name.toList = true :=
    fun name hname => hnames name (List.mem_of_mem_drop hname)
  by_cases hcommon : common = 0
  · subst hcommon
    rw [if_pos rfl, List.singleton_append,
      follow?_root fun step hstep => (plain_intersperse hdownNames hstep).1,
      descend?_intersperse hdown hdownNames, List.drop_zero]
  · have hup : anchor.depth - common ≤ anchor.names.length := Nat.sub_le _ _
    have hkeep : anchor.names.length - (anchor.depth - common) = common := by
      unfold depth
      omega
    rw [if_neg hcommon, follow?_climb, climb?_replicate hup,
      climb?_intersperse hdown hdownNames, hkeep, ← htake, List.take_append_drop]
    · exact fun hnil => intersperse_ne_nil hdown (List.append_eq_nil_iff.mp hnil).2
    · intro step hstep
      rcases List.mem_append.mp hstep with hstep | hstep
      · rw [(List.mem_replicate.mp hstep).2]
        decide
      · exact plain_intersperse hdownNames hstep

end Following
end DeviceSchema.Path
