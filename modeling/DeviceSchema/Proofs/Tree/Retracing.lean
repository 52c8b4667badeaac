import DeviceSchema.Proofs.Tree.Reference

/-! # References lead back

`Path.follow?` follows references as they are stored: they end with a step down, and the names
that they go through are those of nodes.  A reference can be computed between any two places of a
table, and may only go up, or go through names that no node can have.  Whoever reads it
**retraces** it (`retrace?`): a slash at the start goes to the root, the steps `..` that come first
go up, and the names of the other steps are told apart from the instances by their positions alone
(`alternate?_iff`).

Where `follow?` arrives, `retrace?` arrives (`retrace?_of_follow?`).  The reference between two
places of a table leads back, and goes up exactly to where the two part (`retrace?_relativeTo`).
-/
namespace DeviceSchema.Path
open Statement.Reading (isName)

/-- A name that can stand between slashes and goes down. -/
def IsSegment (name : String) : Prop := name ≠ "" ∧ '/' ∉ name.toList ∧ name ≠ ".."

instance : DecidablePred IsSegment := fun name =>
  inferInstanceAs (Decidable (name ≠ "" ∧ '/' ∉ name.toList ∧ name ≠ ".."))

/-- The steps of a reference. -/
def stepsOf (reference : String) : List String :=
  (reference.toList.splitOn '/').map String.ofList

/-- Whether a reference begins at the root. -/
def IsAbsolute (reference : String) : Prop := reference.toList.head? = some '/'

instance : DecidablePred IsAbsolute := fun reference =>
  inferInstanceAs (Decidable (reference.toList.head? = some '/'))

/-- The names of steps that are alternately a name and the instance `1`, the last one a name. -/
def alternate? : List String → Option (List String)
  | [] => some []
  | [name] => some [name]
  | name :: marker :: rest =>
    if marker = "1" ∧ rest ≠ [] then (alternate? rest).map (name :: ·) else none

/-- The names at which steps arrive that go up first and then down. -/
def arrive? (names steps : List String) : Option (List String) :=
  let up := (steps.takeWhile (· = "..")).length
  if names.length < up then none
  else (alternate? (steps.drop up)).map (names.take (names.length - up) ++ ·)

/-- The names to which a reference leads from some names. -/
def retrace? (names : List String) (reference : String) : Option (List String) :=
  if IsAbsolute reference then arrive? [] (stepsOf reference).tail
  else arrive? names (stepsOf reference)

/-- The longest list that both lists begin with. -/
structure IsShared (shared as bs : List String) : Prop where
  left : shared <+: as
  right : shared <+: bs
  longest : ∀ names, names <+: as → names <+: bs → names <+: shared

section Alternating
variable {names steps : List String}

/-- Steps alternate if and only if they are names with the instance between them. -/
theorem alternate?_iff : alternate? steps = some names ↔ steps = names.intersperse "1" := by
  constructor
  · intro h
    fun_induction alternate? steps generalizing names with
    | case1 =>
      cases h
      rfl
    | case2 name =>
      cases h
      rfl
    | case3 name marker rest hmarker ih =>
      obtain ⟨rfl, hne⟩ := hmarker
      obtain ⟨more, hmore, rfl⟩ := Option.map_eq_some_iff.mp h
      have hrest := ih hmore
      cases more with
      | nil => exact absurd hrest hne
      | cons next more => rw [List.intersperse_cons_cons, ← hrest]
    | case4 => cases h
  · rintro rfl
    induction names with
    | nil => rfl
    | cons name rest ih =>
      cases rest with
      | nil => rfl
      | cons next rest =>
        rw [List.intersperse_cons_cons, alternate?,
          if_pos ⟨rfl, intersperse_ne_nil (List.cons_ne_nil next rest)⟩, ih]
        rfl

theorem alternate?_of_descend? (h : descend? steps = some names) :
    alternate? steps = some names := by
  fun_induction descend? steps generalizing names with
  | case1 => cases h
  | case2 name hname => exact h
  | case3 name hname => cases h
  | case4 name marker rest hboth ih =>
    obtain ⟨more, hmore, rfl⟩ := Option.map_eq_some_iff.mp h
    have hne : rest ≠ [] := by
      rintro rfl
      cases hmore
    simp only [Bool.and_eq_true, decide_eq_true_eq] at hboth
    rw [alternate?, if_pos ⟨hboth.2, hne⟩, ih hmore]
    rfl
  | case5 => cases h

end Alternating

section Arriving
variable {names down steps target : List String} {reference : String}

/-- Steps that go up and then down by names that are not `..`. -/
theorem arrive?_steps {k : Nat} (hk : k ≤ names.length) (hdown : ".." ∉ down) :
    arrive? names (List.replicate k ".." ++ down.intersperse "1") =
      some (names.take (names.length - k) ++ down) := by
  have hfirst : (down.intersperse "1").takeWhile (· = "..") = [] := by
    cases hsteps : down.intersperse "1" with
    | nil => rfl
    | cons step rest =>
      have hstep : step ≠ ".." := by
        rintro rfl
        rcases mem_intersperse (hsteps ▸ List.mem_cons_self) with hmem | hmarker
        · exact hdown hmem
        · exact absurd hmarker (by decide)
      exact List.takeWhile_cons_of_neg (by simpa using hstep)
  have hup : ((List.replicate k ".." ++ down.intersperse "1").takeWhile (· = "..")).length = k := by
    rw [List.takeWhile_append_of_pos (by simp), hfirst, List.append_nil, List.length_replicate]
  have hrest : (List.replicate k ".." ++ down.intersperse "1").drop k = down.intersperse "1" :=
    List.drop_left' List.length_replicate
  rw [arrive?, hup, hrest, alternate?_iff.mpr rfl]
  exact if_neg (Nat.not_lt.mpr hk)

/-- A step up leaves the last name. -/
theorem arrive?_up (hne : names ≠ []) : arrive? names (".." :: steps) =
    arrive? names.dropLast steps := by
  have hpos := List.length_pos_iff.mpr hne
  unfold arrive?
  rw [List.takeWhile_cons_of_pos (by decide), List.length_cons]
  generalize (steps.takeWhile (· = "..")).length = up
  dsimp only
  rw [List.length_dropLast, List.dropLast_eq_take, List.take_take]
  by_cases hmany : names.length < up + 1
  · rw [if_pos hmany, if_pos (by omega)]
  · have hkept : min (names.length - 1 - up) (names.length - 1) = names.length - (up + 1) := by omega
    rw [if_neg hmany, if_neg (by omega), hkept, List.drop_succ_cons]

theorem arrive?_down (hstep : steps.head? ≠ some "..") (h : alternate? steps = some down) :
    arrive? names steps = some (names ++ down) := by
  have hup : steps.takeWhile (· = "..") = [] := by
    cases steps with
    | nil => rfl
    | cons step rest =>
      exact List.takeWhile_cons_of_neg (by simpa using hstep)
  simp [arrive?, hup, h]

theorem head?_of_descend? (h : descend? steps = some down) : steps.head? ≠ some ".." := by
  intro hhead
  obtain ⟨rest, rfl⟩ := List.head?_eq_some_iff.mp hhead
  have hup : isName false "..".toList = false := by decide
  cases rest with
  | nil =>
    rw [descend?, hup] at h
    cases h
  | cons marker rest =>
    rw [descend?, hup] at h
    cases h

theorem arrive?_of_climb? (h : climb? names steps = some target) :
    arrive? names steps = some target := by
  fun_induction climb? names steps with
  | case1 => cases h
  | case2 => cases h
  | case3 names rest hempty ih =>
    have hne : names ≠ [] := by simpa using hempty
    rw [arrive?_up hne]
    exact ih h
  | case4 names step rest hstep =>
    obtain ⟨down, hdown, rfl⟩ := Option.map_eq_some_iff.mp h
    exact arrive?_down (by simpa using hstep) (alternate?_of_descend? hdown)

end Arriving

section Splitting
variable {steps names target : List String} {reference : String}

/-- A reference begins at the root if its first step is empty and others follow it. -/
theorem isAbsolute_iff {step : String} {rest : List String} (h : stepsOf reference = step :: rest) :
    IsAbsolute reference ↔ step = "" ∧ rest ≠ [] := by
  unfold stepsOf at h
  unfold IsAbsolute
  cases htext : reference.toList with
  | nil =>
    rw [htext] at h
    cases h
    simp
  | cons c text =>
    obtain ⟨first, more, hmore⟩ := List.exists_cons_of_ne_nil (List.splitOn_ne_nil '/' text)
    rw [htext, List.splitOn_cons_eq_if_modifyHead, hmore] at h
    by_cases hc : c = '/'
    · subst hc
      rw [if_pos (by decide)] at h
      cases h
      simp
    · rw [if_neg (by simpa using hc)] at h
      cases h
      simp [hc]

/-- The steps of a reference that was put together. -/
theorem stepsOf_intercalate (hne : steps ≠ []) (h : ∀ step ∈ steps, '/' ∉ step.toList) :
    stepsOf ("/".intercalate steps) = steps :=
  splitOn_intercalate hne h

/-- **Where a reference leads that is followed, it leads when it is retraced.** -/
theorem retrace?_of_follow? (h : follow? names reference = some target) :
    retrace? names reference = some target := by
  unfold follow? at h
  rw [← stepsOf] at h
  unfold retrace?
  cases hsteps : stepsOf reference with
  | nil =>
    rw [hsteps] at h
    cases h
  | cons step rest =>
    rw [hsteps] at h
    dsimp only at h
    split at h
    · rename_i hstep
      have hne : rest ≠ [] := by
        rintro rfl
        cases h
      rw [if_pos ((isAbsolute_iff hsteps).mpr ⟨hstep, hne⟩)]
      exact arrive?_down (head?_of_descend? h) (alternate?_of_descend? h)
    · rename_i hstep
      rw [if_neg fun habsolute => hstep ((isAbsolute_iff hsteps).mp habsolute).1]
      exact arrive?_of_climb? h

end Splitting

section Steps
variable {names start down : List String} {k : Nat}

/-- The instances between names are steps like names. -/
theorem isSegment_intersperse (h : ∀ name ∈ names, IsSegment name) :
    ∀ step ∈ names.intersperse "1", IsSegment step := by
  intro step hstep
  rcases mem_intersperse hstep with hstep | rfl
  · exact h step hstep
  · decide

theorem count_up_intersperse (h : ∀ name ∈ names, IsSegment name) :
    (names.intersperse "1").count ".." = 0 :=
  List.count_eq_zero.mpr fun hmem => (isSegment_intersperse h ".." hmem).2.2 rfl

/-- A reference from the root leads to its names, wherever it is. -/
theorem retrace?_root (start : List String) (hne : names ≠ [])
    (h : ∀ name ∈ names, IsSegment name) :
    let reference := "/".intercalate ([""] ++ names.intersperse "1")
    retrace? start reference = some names ∧ IsAbsolute reference ∧
      (stepsOf reference).count ".." = 0 := by
  have hslash : ∀ step ∈ "" :: names.intersperse "1", '/' ∉ step.toList := by
    rw [List.forall_mem_cons]
    exact ⟨by decide, fun step hstep => (isSegment_intersperse h step hstep).2.1⟩
  have hsteps : stepsOf ("/".intercalate ([""] ++ names.intersperse "1")) =
      "" :: names.intersperse "1" := stepsOf_intercalate (List.cons_ne_nil _ _) hslash
  have habsolute : IsAbsolute ("/".intercalate ([""] ++ names.intersperse "1")) :=
    (isAbsolute_iff hsteps).mpr ⟨rfl, intersperse_ne_nil hne⟩
  have harrive := arrive?_steps (Nat.zero_le ([] : List String).length) fun hmem =>
    (h ".." hmem).2.2 rfl
  refine ⟨?_, habsolute, ?_⟩
  · rw [retrace?, if_pos habsolute, hsteps]
    exact harrive
  · rw [hsteps, List.count_cons, count_up_intersperse h]
    rfl

/-- A reference that goes up and then down. -/
theorem retrace?_up (hk : k ≤ start.length) (h : ∀ name ∈ down, IsSegment name)
    (hmoves : k = 0 → down ≠ []) :
    let reference := "/".intercalate (List.replicate k ".." ++ down.intersperse "1")
    retrace? start reference = some (start.take (start.length - k) ++ down) ∧
      ¬ IsAbsolute reference ∧ (stepsOf reference).count ".." = k := by
  have hall : ∀ step ∈ List.replicate k ".." ++ down.intersperse "1",
      '/' ∉ step.toList ∧ step ≠ "" := by
    intro step hstep
    rcases List.mem_append.mp hstep with hup | hdown
    · rw [(List.mem_replicate.mp hup).2]
      decide
    · obtain ⟨hne, hslash, -⟩ := isSegment_intersperse h step hdown
      exact ⟨hslash, hne⟩
  have hne : List.replicate k ".." ++ down.intersperse "1" ≠ [] := by
    intro hnil
    obtain ⟨hup, hdown⟩ := List.append_eq_nil_iff.mp hnil
    exact intersperse_ne_nil (hmoves (by simpa using hup)) hdown
  have hsteps := stepsOf_intercalate hne fun step hstep => (hall step hstep).1
  have hrelative :
      ¬ IsAbsolute ("/".intercalate (List.replicate k ".." ++ down.intersperse "1")) := by
    obtain ⟨step, rest, hcons⟩ := List.exists_cons_of_ne_nil hne
    intro habsolute
    have hempty := ((isAbsolute_iff (hsteps.trans hcons)).mp habsolute).1
    exact (hall step (hcons ▸ List.mem_cons_self)).2 hempty
  refine ⟨?_, hrelative, ?_⟩
  · rw [retrace?, if_neg hrelative, hsteps]
    exact arrive?_steps hk fun hmem => (h ".." hmem).2.2 rfl
  · rw [hsteps, List.count_append, List.count_replicate_self, count_up_intersperse h,
      Nat.add_zero]

end Steps

section Between
variable {p anchor : Path} {as bs : List String}

theorem length_le_commonLength {names : List String} (hleft : names <+: as)
    (hright : names <+: bs) : names.length ≤ commonLength as bs := by
  induction names generalizing as bs with
  | nil => exact Nat.zero_le _
  | cons name names ih =>
    obtain ⟨as', rfl, has⟩ := List.cons_prefix_iff.mp hleft
    obtain ⟨bs', rfl, hbs⟩ := List.cons_prefix_iff.mp hright
    rw [commonLength, if_pos rfl]
    exact Nat.succ_le_succ (ih has hbs)

/-- The names that are counted as common are the longest list that both begin with. -/
theorem isShared_commonLength (as bs : List String) :
    IsShared (as.take (commonLength as bs)) as bs where
  left := List.take_prefix _ _
  right := by
    rw [take_commonLength]
    exact List.take_prefix _ _
  longest _ hleft hright :=
    List.prefix_take_iff.mpr ⟨hleft, length_le_commonLength hleft hright⟩

theorem commonLength_eq_zero (hne : as ≠ []) (bs : List String) :
    commonLength as bs = 0 ↔ as.head? ≠ bs.head? := by
  obtain ⟨a, as, rfl⟩ := List.exists_cons_of_ne_nil hne
  cases bs with
  | nil => simp [commonLength]
  | cons b bs =>
    rw [commonLength]
    split <;> simp_all

/-- **The reference between two places of a table leads back.**  Nothing is asked of the names
of the place from which it leads, as it goes through none of them. -/
theorem retrace?_relativeTo (htable : p.table = anchor.table) (hplace : p.names ≠ anchor.names)
    (hne : p.names ≠ []) (hnames : ∀ name ∈ p.names, IsSegment name) :
    ∃ reference shared, p.relativeTo anchor = .ok reference ∧
      retrace? anchor.names reference = some p.names ∧ IsShared shared p.names anchor.names ∧
      if p.names.head? = anchor.names.head? then
        ¬ IsAbsolute reference ∧ (stepsOf reference).count ".." = anchor.depth - shared.length
      else IsAbsolute reference ∧ (stepsOf reference).count ".." = 0 := by
  obtain ⟨hleft, hright⟩ := commonLength_le p.names anchor.names
  have htake := take_commonLength p.names anchor.names
  have hshared := isShared_commonLength p.names anchor.names
  have hheads := commonLength_eq_zero hne anchor.names
  have hreference : p.relativeTo anchor = .ok ("/".intercalate (p.stepsFrom anchor)) := by
    rw [relativeTo, if_neg (not_not_intro htable), if_neg hplace]
  refine ⟨_, p.names.take (commonLength p.names anchor.names), hreference, ?_⟩
  rw [List.length_take, Nat.min_eq_left hleft, stepsFrom]
  generalize commonLength p.names anchor.names = common at hleft hright htake hshared hheads ⊢
  by_cases hcommon : common = 0
  · obtain ⟨hback, habsolute, hcount⟩ := retrace?_root anchor.names hne hnames
    subst hcommon
    rw [if_pos rfl, List.drop_zero, if_neg (hheads.mp rfl)]
    exact ⟨hback, hshared, habsolute, hcount⟩
  · have hdown : ∀ name ∈ p.names.drop common, IsSegment name := fun name hname =>
      hnames name (List.mem_of_mem_drop hname)
    have hup : anchor.depth - common ≤ anchor.names.length := Nat.sub_le _ _
    have hkept : anchor.names.length - (anchor.depth - common) = common := by
      unfold depth
      omega
    -- With no step at all, both places would have the same names.
    have hmoves : anchor.depth - common = 0 → p.names.drop common ≠ [] := by
      intro hnone hdropped
      have hanchor : anchor.names.length ≤ common := Nat.sub_eq_zero_iff_le.mp hnone
      rw [List.take_of_length_le (List.drop_eq_nil_iff.mp hdropped),
        List.take_of_length_le hanchor] at htake
      exact hplace htake
    obtain ⟨hback, hrelative, hcount⟩ := retrace?_up hup hdown hmoves
    have hsame : p.names.head? = anchor.names.head? := by
      by_contra hdiffer
      exact hcommon (hheads.mpr hdiffer)
    rw [hkept, ← htake, List.take_append_drop] at hback
    rw [if_neg hcommon, if_pos hsame]
    exact ⟨hback, hshared, hrelative, hcount⟩

/-- Up to the group, and down through a list. -/
theorem retrace?_relativeTo_small :
    ∃ reference shared,
      relativeTo ⟨.setting, ["g", "l", "e"]⟩ ⟨.setting, ["g", "x", "y"]⟩ = .ok reference ∧
        retrace? ["g", "x", "y"] reference = some ["g", "l", "e"] ∧
        IsShared shared ["g", "l", "e"] ["g", "x", "y"] ∧
        ¬ IsAbsolute reference ∧ (stepsOf reference).count ".." = 3 - shared.length :=
  retrace?_relativeTo rfl (by decide) (by decide) (by decide)

/-- A reference that only goes up leads back, too, but is not followed. -/
example : relativeTo ⟨.setting, ["g"]⟩ ⟨.setting, ["g", "x", "y"]⟩ = .ok "../.." ∧
    retrace? ["g", "x", "y"] "../.." = some ["g"] ∧ follow? ["g", "x", "y"] "../.." = none := by
  decide +kernel

end Between
end DeviceSchema.Path
