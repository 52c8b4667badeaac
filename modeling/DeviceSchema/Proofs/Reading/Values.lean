import DeviceSchema.Proofs.Reading.Quiet
import DeviceSchema.Proofs.Tree.Changes

/-! # What a successful step of reading gives

Names, labels, keys and attachments are checked as they are read.  The lemmas here
say what is known of a value that a step has given.  A text is a **label** when it
is the colon-doubled form of a text that the description language admits.
-/
namespace DeviceSchema.Statement.Reading

/-- A text that `label?` can give. -/
def IsLabel (text : String) : Prop :=
  ∃ plain : String, plain ≠ "" ∧ isLatin1 plain.toList = true ∧
    plain.length ≤ Ceiling.labelLength ∧ text = doubleColons plain

theorem limits_ok {p q : Progress} {l : Limits} (h : limits p = .ok l q) :
    l = p.session.limits ∧ q = p := by
  cases h
  exact ⟨rfl, rfl⟩

theorem session_ok {p q : Progress} {s : Session} (h : session p = .ok s q) :
    s = p.session ∧ q = p := by
  cases h
  exact ⟨rfl, rfl⟩

theorem name_ok {p q : Progress} {n : String} (h : name p = .ok n q) :
    n.length ≤ p.session.limits.nameLength ∧ isName false n.toList = true := by
  unfold name at h
  obtain ⟨before, p₁, h₁, h⟩ := bind_ok.mp h
  obtain ⟨token, p₂, h₂, h⟩ := bind_ok.mp h
  have hs : p₂.session = p.session :=
    (keeps_token?.session h₂).trans (keeps_line.session h₁)
  cases token with
  | none => cases h
  | some token =>
    obtain ⟨l, p₃, h₃, h⟩ := bind_ok.mp h
    obtain ⟨rfl, rfl⟩ := limits_ok h₃
    split at h
    · cases h
    · split at h
      · cases h
      · obtain ⟨rfl, -⟩ := pure_ok.mp h
        rw [← hs]
        exact ⟨by omega, by simp_all⟩

theorem description?_ok {wording : Wording} {p q : Progress} {text : String}
    (h : description? wording p = .ok (some text) q) :
    text ≠ "" ∧ isLatin1 text.toList = true := by
  unfold description? at h
  obtain ⟨quoted, p₁, -, h⟩ := bind_ok.mp h
  split at h
  · cases h
  · obtain ⟨read, p₂, -, h⟩ := bind_ok.mp h
    cases read with
    | none => cases h
    | some read =>
      dsimp only at h
      split at h
      · cases h
      · obtain ⟨hr, -⟩ := pure_ok.mp h
        split at hr
        · cases hr
        · cases hr
          rename_i hlatin hne
          exact ⟨by simpa using hne, by simpa using hlatin⟩

theorem label?_ok {p q : Progress} {text : String} (h : label? p = .ok (some text) q) :
    IsLabel text := by
  unfold label? at h
  obtain ⟨plain, p₁, h₁, h⟩ := bind_ok.mp h
  cases plain with
  | none => cases h
  | some plain =>
    obtain ⟨hne, hlatin⟩ := description?_ok h₁
    dsimp only at h
    split at h
    · cases h
    · obtain ⟨ht, -⟩ := pure_ok.mp h
      cases ht
      exact ⟨plain, hne, hlatin, by omega, rfl⟩

theorem keys_ok {construct : Construct} {opened : Nat} {p q : Progress} {found : List String}
    (h : keys construct opened p = .ok found q) : found = [] := by
  unfold keys at h
  obtain ⟨text, p₁, -, h⟩ := bind_ok.mp h
  split at h
  · exact (pure_ok.mp h).1.symm
  · cases h

/-- An attachment is of a condition that the node's own table has. -/
theorem attachment_ok {info info' : Info} {here : Path} {p q : Progress}
    (h : attachment info here p = .ok info' q) :
    ∃ condition ∈ (p.session.table here.table).conditions,
      info.attach condition here = .ok () info' := by
  unfold attachment at h
  obtain ⟨name, p₁, h₁, h⟩ := bind_ok.mp h
  have hs : p₁.session = p.session := keeps_name.session h₁
  obtain ⟨s, p₂, h₂, h⟩ := bind_ok.mp h
  obtain ⟨rfl, rfl⟩ := session_ok h₂
  obtain ⟨condition, p₃, h₃, h⟩ := bind_ok.mp h
  exact ⟨condition, hs ▸ Table.condition_ok (taking_ok.mp h₃).1, (changing_ok.mp h).1⟩

end DeviceSchema.Statement.Reading
