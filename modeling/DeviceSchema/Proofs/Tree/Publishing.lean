import DeviceSchema.Proofs.Writing.Pieces

/-! # What is published of labels and help texts

An item publishes its label, in which colons are doubled, and behind one more colon its help text,
which is left as it is.  Whoever reads this takes two colons for one of the label, and the first
single one for its end (`parted`).

A help text that begins with a colon makes a pair of the colon before it, and what follows may be
taken for the rest of a longer label.  The reader recovers label and help text if and only if this
is not so.  Of two items that publish the same, one **runs into** the other: the label of the other
goes on where its own ends, and its help text says all of the rest (`Info.RunsInto`).  Both are
`Info.published_eq_iff`.
-/
namespace DeviceSchema
open Token.Piece (quote)
open Statement.Reading (IsLabel doubleColons)

/-- The label and the help text that are read from what is published. -/
def parted : List Char → List Char × Option (List Char)
  | [] => ([], none)
  | ':' :: ':' :: rest => (parted rest).map (':' :: ·) id
  | ':' :: help => ([], some help)
  | c :: rest => (parted rest).map (c :: ·) id

/-- What a group, a list or an element says of itself when it has been read: a label and perhaps a
help text, both of which can stand between quotes. -/
@[mk_iff]
structure Info.IsDescribed (info : Info) : Prop where
  label : IsLabel info.description
  quotable : (quote info.description).WellFormed
  help : ∀ help ∈ info.help, IsPhrase help

/-- The label of `j` is that of `i`, a colon and a rest, and the help text of `i` is a colon and
what `j` would publish with the rest as its label. -/
def Info.RunsInto (i j : Info) : Prop :=
  ∃ rest, j.description = i.description ++ doubleColons (":" ++ rest) ∧
    i.help = some (":" ++ { j with description := doubleColons rest }.published)

section Characters

/-- A text with its colons doubled. -/
def doubled (plain : List Char) : List Char :=
  plain.flatMap fun c => if c = ':' then [':', ':'] else [c]

/-- The colon and the help text that follow a label. -/
def behind : Option (List Char) → List Char
  | some help => ':' :: help
  | none => []

variable {c d : Char} {p q s t : List Char} {h k : Option (List Char)}

theorem doubled_append (p q : List Char) : doubled (p ++ q) = doubled p ++ doubled q :=
  List.flatMap_append

theorem doubled_colon (p : List Char) : doubled (':' :: p) = ':' :: ':' :: doubled p := rfl

theorem doubled_cons (hc : c ≠ ':') (p : List Char) : doubled (c :: p) = c :: doubled p := by
  rw [doubled, List.flatMap_cons, if_neg hc]
  rfl

/-- Doubling goes character by character, whatever follows. -/
theorem doubled_cons_append_eq_iff :
    doubled (c :: p) ++ s = doubled (d :: q) ++ t ↔ c = d ∧ doubled p ++ s = doubled q ++ t := by
  by_cases hc : c = ':' <;> by_cases hd : d = ':'
  · subst hc hd
    simp [doubled_colon]
  · subst hc
    simp [doubled_colon, doubled_cons hd, Ne.symm hd]
  · subst hd
    simp [doubled_colon, doubled_cons hc, hc]
  · simp [doubled_cons hc, doubled_cons hd]

theorem behind_inj : behind h = behind k ↔ h = k := by
  cases h <;> cases k <;> simp [behind]

/-- A label can only go on behind another one with a colon. -/
theorem behind_eq_doubled_iff :
    behind h = doubled (c :: p) ++ t ↔ c = ':' ∧ behind h = ':' :: ':' :: (doubled p ++ t) := by
  by_cases hc : c = ':'
  · subst hc
    simp [doubled_colon]
  · rw [doubled_cons hc]
    cases h <;> simp [behind, Ne.symm hc, hc]

/-- **Two labels and what stands behind them come to the same text if and only if they are the
same, or what stands behind one is the rest of the other.** -/
theorem doubled_append_behind_eq_iff : doubled p ++ behind h = doubled q ++ behind k ↔
    p = q ∧ h = k ∨
    (∃ rest, q = p ++ ':' :: rest ∧ behind h = ':' :: ':' :: (doubled rest ++ behind k)) ∨
    ∃ rest, p = q ++ ':' :: rest ∧ behind k = ':' :: ':' :: (doubled rest ++ behind h) := by
  induction p generalizing q with
  | nil =>
    cases q with
    | nil => simp [doubled, behind_inj]
    | cons d q =>
      rw [show doubled [] ++ behind h = behind h from rfl, behind_eq_doubled_iff]
      simp
  | cons c p ih =>
    cases q with
    | nil =>
      rw [show doubled [] ++ behind k = behind k from rfl, eq_comm, behind_eq_doubled_iff]
      simp
    | cons d q =>
      rw [doubled_cons_append_eq_iff, ih]
      simp only [List.cons_append, List.cons.injEq]
      grind

/-- The reader takes the characters of a label one by one. -/
theorem parted_doubled_cons (c : Char) (p s : List Char) :
    parted (doubled (c :: p) ++ s) = (parted (doubled p ++ s)).map (c :: ·) id := by
  by_cases hc : c = ':'
  · subst hc
    rfl
  · rw [doubled_cons hc, List.cons_append, parted]
    · exact fun _ h _ => hc h
    · exact fun h => hc h

/-- **A label and what stands behind it are recovered if and only if that is no help text which
begins with a colon.** -/
theorem parted_doubled_iff : parted (doubled p ++ behind h) = (p, h) ↔
    ∀ help ∈ h, help.head? ≠ some ':' := by
  induction p with
  | nil =>
    cases h with
    | none => simp [doubled, behind, parted]
    | some help =>
      cases help with
      | nil => simp [doubled, behind, parted]
      | cons c rest => by_cases hc : c = ':' <;> simp [doubled, behind, parted, hc, Prod.ext_iff]
  | cons c p ih =>
    rw [parted_doubled_cons, ← ih]
    simp [Prod.ext_iff]

end Characters

namespace Info
variable {info i j : Info}

/-- The help text does not begin with a colon. -/
def HasPlainHelp (info : Info) : Prop := ∀ help ∈ info.help, help.toList.head? ≠ some ':'

/-- The reader finds the label and the help text. -/
def IsRecovered (info : Info) : Prop :=
  ∃ plain, info.description = doubleColons plain ∧
    parted info.published.toList = (plain.toList, info.help.map String.toList)

theorem toList_doubleColons (plain : String) :
    (doubleColons plain).toList = doubled plain.toList := by
  rw [doubleColons, String.toList_ofList]
  rfl

theorem doubleColons_inj {p q : String} : doubleColons p = doubleColons q ↔ p = q := by
  constructor
  · intro h
    rw [← String.toList_inj, ← halveColons_doubleColons p, h, halveColons_doubleColons]
  · exact congrArg doubleColons

theorem toList_published (info : Info) :
    info.published.toList = info.description.toList ++ behind (info.help.map String.toList) := by
  unfold published
  cases info.help with
  | none => simp [behind]
  | some help =>
    simp only [String.toList_append, Option.map_some, behind, List.append_assoc]
    rfl

theorem isRecovered_iff (hi : info.IsDescribed) : info.IsRecovered ↔ info.HasPlainHelp := by
  obtain ⟨plain, -, -, -, hlabel⟩ := hi.label
  have hread : parted info.published.toList = (plain.toList, info.help.map String.toList) ↔
      info.HasPlainHelp := by
    rw [toList_published, hlabel, toList_doubleColons, parted_doubled_iff, HasPlainHelp]
    simp
  constructor
  · rintro ⟨other, hother, h⟩
    obtain rfl := doubleColons_inj.mp (hother.symm.trans hlabel)
    exact hread.mp h
  · exact fun h => ⟨plain, hlabel, hread.mpr h⟩

theorem doubleColons_append (p q : String) :
    doubleColons (p ++ q) = doubleColons p ++ doubleColons q := by
  rw [← String.toList_inj, String.toList_append]
  simp only [toList_doubleColons, String.toList_append, doubled_append]

/-- Behind a label stands a colon and a text if and only if the help text is that text. -/
theorem behind_eq_cons_iff {help : Option String} {text : String} :
    behind (help.map String.toList) = ':' :: text.toList ↔ help = some text := by
  cases help <;> simp [behind, String.toList_inj]

/-- One item runs into another if and only if their characters do. -/
theorem runsInto_iff {p q : String} (hi : i.description = doubleColons p)
    (hj : j.description = doubleColons q) : i.RunsInto j ↔
      ∃ rest, q.toList = p.toList ++ ':' :: rest ∧ behind (i.help.map String.toList) =
        ':' :: ':' :: (doubled rest ++ behind (j.help.map String.toList)) := by
  have hrest (rest : String) : (j.description = i.description ++ doubleColons (":" ++ rest) ∧
      i.help = some (":" ++ { j with description := doubleColons rest }.published)) ↔
      q.toList = p.toList ++ ':' :: rest.toList ∧ behind (i.help.map String.toList) =
        ':' :: ':' :: (doubled rest.toList ++ behind (j.help.map String.toList)) := by
    have hlabel : (":" ++ rest).toList = ':' :: rest.toList := String.toList_append
    have hhelp : (":" ++ { j with description := doubleColons rest }.published).toList =
        ':' :: (doubled rest.toList ++ behind (j.help.map String.toList)) := by
      rw [String.toList_append, toList_published, toList_doubleColons]
      rfl
    rw [hi, hj, ← doubleColons_append, doubleColons_inj, ← String.toList_inj, String.toList_append,
      hlabel, ← behind_eq_cons_iff, hhelp]
  constructor
  · rintro ⟨rest, h⟩
    exact ⟨rest.toList, (hrest rest).mp h⟩
  · rintro ⟨rest, h⟩
    refine ⟨String.ofList rest, (hrest _).mpr ?_⟩
    rwa [String.toList_ofList]

theorem map_toList_inj {help help' : Option String} :
    help.map String.toList = help'.map String.toList ↔ help = help' :=
  (Option.map_injective fun _ _ => String.toList_inj.mp).eq_iff

theorem published_eq_iff_runsInto (hi : i.IsDescribed) (hj : j.IsDescribed) :
    i.published = j.published ↔
      (i.description = j.description ∧ i.help = j.help) ∨ i.RunsInto j ∨ j.RunsInto i := by
  obtain ⟨p, -, -, -, hp⟩ := hi.label
  obtain ⟨q, -, -, -, hq⟩ := hj.label
  have hsame : i.description = j.description ∧ i.help = j.help ↔
      p.toList = q.toList ∧ i.help.map String.toList = j.help.map String.toList := by
    rw [hp, hq, doubleColons_inj, String.toList_inj, map_toList_inj]
  rw [hsame, runsInto_iff hp hq, runsInto_iff hq hp, ← doubled_append_behind_eq_iff,
    ← String.toList_inj, toList_published, toList_published, hp, hq, toList_doubleColons,
    toList_doubleColons]

/-- What is recovered from the same text is the same. -/
theorem IsRecovered.eq_of_published_eq (hi : i.IsRecovered) (hj : j.IsRecovered)
    (h : i.published = j.published) : i.description = j.description ∧ i.help = j.help := by
  obtain ⟨p, hp, hread⟩ := hi
  obtain ⟨q, hq, hread'⟩ := hj
  rw [h, hread'] at hread
  obtain ⟨hlabel, hhelp⟩ := Prod.mk.inj hread
  rw [hp, hq, String.toList_inj.mp hlabel]
  exact ⟨rfl, map_toList_inj.mp hhelp.symm⟩

/-- **Two items publish the same if and only if they say the same or one runs into the other.**
What a reader takes for label and help text is what the item says if and only if the help text does
not begin with a colon, and items of this kind are told apart. -/
theorem published_eq_iff (hi : i.IsDescribed) (hj : j.IsDescribed) :
    (i.published = j.published ↔
      (i.description = j.description ∧ i.help = j.help) ∨ i.RunsInto j ∨ j.RunsInto i) ∧
    (i.IsRecovered ↔ i.HasPlainHelp) ∧
    (i.HasPlainHelp → j.HasPlainHelp → i.published = j.published →
      i.description = j.description ∧ i.help = j.help) := by
  refine ⟨published_eq_iff_runsInto hi hj, isRecovered_iff hi, fun hplain hplain' => ?_⟩
  exact ((isRecovered_iff hi).mpr hplain).eq_of_published_eq ((isRecovered_iff hj).mpr hplain')

/-- An item whose help text begins with a colon. -/
def shortLabel : Info := ⟨"i", "a", some ":b", none, none⟩

/-- An item whose label has a colon in it. -/
def longLabel : Info := ⟨"j", "a::b", none, none, none⟩

instance (info : Info) : Decidable info.IsDescribed :=
  decidable_of_iff _ info.isDescribed_iff.symm

theorem published_eq_iff_small : shortLabel.IsDescribed ∧ longLabel.IsDescribed ∧
    shortLabel.RunsInto longLabel ∧ shortLabel.published = longLabel.published := by
  have hruns : shortLabel.RunsInto longLabel := ⟨"b", by decide, by decide⟩
  have hshort : shortLabel.IsDescribed := by decide
  have hlong : longLabel.IsDescribed := by decide
  exact ⟨hshort, hlong, hruns, (published_eq_iff hshort hlong).1.mpr (.inr (.inl hruns))⟩

/-- **Two items can publish the same and say different things.** -/
theorem published_alike_small : shortLabel.IsDescribed ∧ longLabel.IsDescribed ∧
    shortLabel.published = longLabel.published ∧
    shortLabel.description ≠ longLabel.description ∧ shortLabel.help ≠ longLabel.help := by
  decide

end Info
end DeviceSchema
