import DeviceSchema.Proofs.Tree.Conformity

/-! # Defaults that begin with a reference

A default of a `ref_enum` that is no member has to begin with the path of a reference.  Paths
are made of names between slashes, and the check looks at characters.  So a text can begin with
a path in two ways.  It **goes on from** the path if the last name of the path ends where the
path does: the text is the path, or has a slash and a key behind it (`GoesOnFrom`).  It **runs
over** the path if this name is only the beginning of a longer one, or if no key follows the
slash (`RunsOver`).

Both ways pass (`Element.refEnum_default_iff`), also where the longer name is that of another
dictionary (`Element.refEnum_default_runsOver_small`).
-/
namespace DeviceSchema

variable {path text : List Char}

/-- The text is the path, or there is a slash and something else behind the path. -/
inductive GoesOnFrom (path : List Char) : List Char → Prop
  | here : GoesOnFrom path path
  | below {key : List Char} (h : key ≠ []) : GoesOnFrom path (path ++ '/' :: key)

/-- The text goes on within the last name of the path, or breaks off behind a slash. -/
inductive RunsOver (path : List Char) : List Char → Prop
  | longer {c : Char} {rest : List Char} (h : c ≠ '/') : RunsOver path (path ++ c :: rest)
  | bare : RunsOver path (path ++ ['/'])

/-- **A text begins with a path in one of the two ways.** -/
theorem prefix_iff_goesOnFrom_or_runsOver :
    path <+: text ↔ GoesOnFrom path text ∨ RunsOver path text := by
  constructor
  · rintro ⟨rest, rfl⟩
    cases rest with
    | nil =>
      rw [List.append_nil]
      exact .inl .here
    | cons c key =>
      by_cases hc : c = '/'
      · subst hc
        by_cases hkey : key = []
        · subst hkey
          exact .inr .bare
        · exact .inl (.below hkey)
      · exact .inr (.longer hc)
  · rintro (h | h)
    · cases h with
      | here => exact List.prefix_rfl
      | below => exact List.prefix_append _ _
    · cases h with
      | longer => exact List.prefix_append _ _
      | bare => exact List.prefix_append _ _

theorem RunsOver.exists_rest (h : RunsOver path text) :
    ∃ c rest, text = path ++ c :: rest ∧ (c = '/' → rest = []) := by
  cases h with
  | @longer c rest hc => exact ⟨c, rest, rfl, fun h => absurd h hc⟩
  | bare => exact ⟨'/', [], rfl, fun _ => rfl⟩

/-- No text does both. -/
theorem GoesOnFrom.not_runsOver (h : GoesOnFrom path text) : ¬ RunsOver path text := by
  intro hover
  obtain ⟨c, rest, htext, hrest⟩ := hover.exists_rest
  cases h with
  | here => simp at htext
  | below hkey =>
    obtain ⟨rfl, rfl⟩ := List.cons.inj (List.append_cancel_left htext)
    exact hkey (hrest rfl)

namespace Element
variable {e : Element}

/-- A `ref_enum` that conforms without its default conforms with it if the default does. -/
theorem refEnum_check_iff (htype : e.type = some .refEnum)
    (hrest : { e with default := none }.check = .ok ()) :
    e.check = .ok () ↔ ∀ d ∈ e.default, (∃ v ∈ e.values, v.name = d) ∨
      ∃ r ∈ e.references, r.name.toList <+: d.toList := by
  obtain ⟨type, hdeclared, hconforms⟩ := check_iff _ |>.mp hrest
  obtain rfl : type = .refEnum := Option.some.inj (hdeclared.symm.trans htype)
  have hmembers : e.values ≠ [] ∨ e.references ≠ [] := hconforms.value.1
  rw [check_iff]
  constructor
  · rintro ⟨type, hdeclared, h⟩
    obtain rfl : type = .refEnum := Option.some.inj (hdeclared.symm.trans htype)
    exact h.value.2
  · intro h
    exact ⟨.refEnum, htype, hconforms.bounds, hconforms.max, hconforms.rule, hmembers, h⟩

/-- **The default of a `ref_enum` is a member, goes on from a reference or runs over one.** -/
theorem refEnum_default_iff (htype : e.type = some .refEnum)
    (hrest : { e with default := none }.check = .ok ()) :
    e.check = .ok () ↔ ∀ d ∈ e.default, (∃ v ∈ e.values, v.name = d) ∨
      ∃ r ∈ e.references, GoesOnFrom r.name.toList d.toList ∨ RunsOver r.name.toList d.toList := by
  simp only [refEnum_check_iff htype hrest, prefix_iff_goesOnFrom_or_runsOver]

/-- An element whose default is the path of a dictionary that it does not refer to. -/
def neighbour : Element where
  info := ⟨"e", "E", none, none, none⟩
  type := some .refEnum
  default := some "/g/1/l2"
  references := [⟨"/g/1/l", "", none, none, none⟩]

theorem refEnum_default_iff_small : neighbour.type = some .refEnum ∧
    { neighbour with default := none }.check = .ok () ∧ neighbour.check = .ok () := by
  have hrest : { neighbour with default := none }.check = .ok () := by decide
  refine ⟨rfl, hrest, (refEnum_default_iff rfl hrest).mpr ?_⟩
  rintro d ⟨⟩
  exact .inr ⟨_, List.mem_cons_self, .inr (@RunsOver.longer _ '2' [] (by decide))⟩

/-- **A default can pass although it goes on from no reference.** -/
theorem refEnum_default_runsOver_small :
    neighbour.type = some .refEnum ∧ neighbour.check = .ok () ∧
      ∃ d, neighbour.default = some d ∧ (∀ v ∈ neighbour.values, v.name ≠ d) ∧
        ∀ r ∈ neighbour.references, ¬ GoesOnFrom r.name.toList d.toList := by
  refine ⟨rfl, by decide, "/g/1/l2", rfl, nofun, fun r hr => ?_⟩
  obtain rfl := List.mem_singleton.mp hr
  intro h
  exact h.not_runsOver (@RunsOver.longer _ '2' [] (by decide))

end Element
end DeviceSchema
