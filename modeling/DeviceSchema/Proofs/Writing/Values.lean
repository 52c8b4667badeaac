import DeviceSchema.Proofs.Reading.Yields
import DeviceSchema.Proofs.Writing.Words

/-! # Reading written values

Each value that a group is made of is read back from the piece that says it: names,
labels and help texts, counts and bounds, the words of the closed vocabularies, and the
paths of references.  Where a help text may follow, it matters that the next piece is no
text in quotes.
-/
namespace DeviceSchema

section Vocabularies

/-- A text without capitals is its own lower case. -/
theorem toLower_eq_self {text : String} (h : text.toList.all (fun c => c.toLower = c) = true) :
    text.toLower = text := by
  have hmap : text.toLower.toList = text.toList.map Char.toLower := String.toList_map
  have hchars : text.toList.map Char.toLower = text.toList :=
    (List.map_congr_left fun c hc => of_decide_eq_true (List.all_eq_true.mp h c hc)).trans
      (List.map_id _)
  rw [← String.toList_inj, hmap, hchars]

/-- A keyword is found as it stands. -/
theorem lookup_toLower {κ : Type} {keywords : List (String × κ)} {text : String} {kind : κ}
    (hlower : text.toList.all (fun c => c.toLower = c) = true)
    (h : keywords.lookup text = some kind) : keywords.lookup text.toLower = some kind := by
  rw [toLower_eq_self hlower, h]

@[simp] theorem Access.ofText_word (access : Access) : ofText access.word = .ok access := by
  have hword : ofWord? access.word = some access := by
    cases access <;> rw [ofWord?, toLower_eq_self (by decide)] <;> rfl
  rw [ofText, hword, Option.elim_some]

@[simp] theorem ValueType.ofText_word (type : ValueType) : ofText type.word = .ok type := by
  have hword : ofWord? type.word = some type := by
    cases type <;> rw [ofWord?, toLower_eq_self (by decide)] <;> rfl
  rw [ofText, hword, Option.elim_some]

@[simp] theorem TableKind.ofWord?_word (kind : TableKind) : ofWord? kind.word = some kind := by
  cases kind <;> rw [ofWord?, toLower_eq_self (by decide)] <;> rfl

@[simp] theorem CaseRule.ofWord?_word (caseRule : CaseRule) :
    ofWord? caseRule.word = some caseRule := by
  cases caseRule <;> rw [ofWord?, toLower_eq_self (by decide)] <;> rfl

@[simp] theorem Capacity.ofWord?_word (capacity : Capacity) :
    ofWord? capacity.word = some capacity := by
  cases capacity <;> rw [ofWord?, toLower_eq_self (by decide)] <;> rfl

end Vocabularies

namespace Statement.Reading
open Token (Piece)
open Token.Piece (word quote)
open Token.Stream (begins)

section Values
variable {α : Type} {l : Limits} {ps ps' : List Piece} {text : String}

theorem begins_word {c : Char} (h : IsPlain text.toList) (hc : c.toNat < 42) :
    begins c (word text :: ps) = false :=
  decide_eq_false fun hhead => h.head?_ne hc hhead

theorem begins_clause {c : Char} {β : Type} {keyword : String} {write : β → Piece}
    {declared : Option β} (hkeyword : begins c [word keyword] = false)
    (hps : begins c ps = false) : begins c (clause keyword write declared ++ ps) = false := by
  cases declared with
  | none => exact hps
  | some value => exact hkeyword

/-- A token whose text is known. -/
theorem yields_word {f : Option Token → Reading α} {a : α}
    (h : ∀ token : Token, token.text = text → Yields l (f (some token)) ps a ps') :
    Yields l (token? >>= f) (word text :: ps) a ps' :=
  yields_token? fun token htoken => h token (by rw [htoken, String.ofList_toList])

theorem yields_tokenText_word : Yields l tokenText (word text :: ps) text ps := by
  have h : Yields l tokenText (word text :: ps) (String.ofList text.toList) ps := yields_tokenText
  rwa [String.ofList_toList] at h

theorem yields_text_word {missing : Cause} :
    Yields l (Reading.text missing) (word text :: ps) text ps := by
  have h : Yields l (Reading.text missing) (word text :: ps) (String.ofList text.toList) ps :=
    yields_text yields_text?_plain
  rwa [String.ofList_toList] at h

theorem yields_text_quote {missing : Cause} :
    Yields l (Reading.text missing) (quote text :: ps) text ps := by
  have h : Yields l (Reading.text missing) (quote text :: ps) (String.ofList text.toList) ps :=
    yields_text yields_text?_quoted
  rwa [String.ofList_toList] at h

/-! ## Names and descriptions -/

/-- Names of nodes and of members are read back. -/
theorem yields_anyName {ofMember : Bool} {tooLong : Nat → Cause} {malformed : String → Cause}
    {name : String} (h : l.Admits ofMember name) :
    Yields l (anyName ofMember tooLong malformed) (word name :: ps) name ps := by
  refine yields_line fun before => yields_word fun token htoken => yields_limits.bind ?_
  dsimp only
  rw [htoken, if_neg (Nat.not_lt.mpr h.1), h.2, if_neg (by decide)]
  exact yields_pure

theorem yields_name {name : String} (h : l.Admits false name) :
    Yields l Reading.name (word name :: ps) name ps := yields_anyName h

theorem yields_memberName {name : String} (h : l.Admits true name) :
    Yields l memberName (word name :: ps) name ps := yields_anyName h

theorem yields_phrase {wording : Wording} (h : IsPhrase text) :
    Yields l (description? wording) (quote text :: ps) (some text) ps := by
  have hyields : Yields l (description? wording) (quote text :: ps)
      (if text.toList = [] then none else some (String.ofList text.toList)) ps :=
    yields_description? h.2.1
  rwa [if_neg (by simpa using h.1), String.ofList_toList] at hyields

theorem yields_label? (h : IsLabel text) :
    Yields l label? (.quoted (halveColons text.toList) :: ps) (some text) ps := by
  obtain ⟨hne, hlatin, hlength, htext⟩ := isLabel_iff.mp h
  rw [String.toList_ofList] at hlatin
  refine (yields_description? hlatin).bind ?_
  rw [if_neg (by simpa using hne)]
  dsimp only
  rw [if_neg (Nat.not_lt.mpr hlength), ← htext]
  exact yields_pure

theorem yields_label?_empty : Yields l label? (.quoted [] :: ps) none ps :=
  (yields_description? rfl).bind yields_pure

theorem yields_help? {help : Option String} (h : ∀ text ∈ help, IsPhrase text)
    (hps : begins '"' ps = false) :
    Yields l help? ((help.map quote).toList ++ ps) help ps := by
  cases help with
  | none => exact yields_help?_none hps
  | some text => exact yields_phrase (h text rfl)

/-- What a node says of itself is read back, up to its access. -/
theorem yields_texts {info : Info} {f : Option String → Option String → Reading α} {a : α}
    (h : info.WritableNode l) (hps : begins '"' ps = false)
    (hf : Yields l (f (some info.description) info.help) ps a ps') :
    Yields l (do f (← label?) (← help?)) (info.texts ++ ps) a ps' := by
  have hlabel : IsLabel info.description := h.writable.label.resolve_left h.described
  exact (yields_label? hlabel).bind ((yields_help? h.writable.help hps).bind hf)

theorem ofItem_writable {info : Info} (h : info.WritableNode l) :
    Info.ofItem info.name (some info.description) info.help = .ok { info with access := none } := by
  have hfree := h.writable.free
  have hcondition := h.writable.condition
  obtain ⟨name, description, help, access, condition⟩ := info
  dsimp only at hfree hcondition ⊢
  rw [Info.ofItem, Info.ofMember, hfree, if_neg (by decide), hcondition]
  rfl

/-- An access that was declared stays. -/
theorem inheritAccess_eq {info : Info} {access : Access} (h : info.access.isSome) :
    info.inheritAccess access = info := by
  obtain ⟨own, hown⟩ := Option.isSome_iff_exists.mp h
  rw [Info.inheritAccess, hown, Option.getD_some, ← hown]

/-- What a member says of itself is read back; its description may be empty. -/
theorem yields_member {info : Info} {add : Info → EStateM.Result Defect Element Unit} {e : Element}
    (h : info.WritableMember) (hps : begins '"' ps = false) (hadd : add info = .ok () e) :
    let read : Reading Element := do
      note (·.noteMemberName info.name.length)
      let label ← label?
      let help ← help?
      let value ← taking (Info.ofMember info.name label help)
      changing (add value)
    Yields l read (info.texts ++ ps) e ps := by
  have hmember (label : Option String) (hlabel : label.getD "" = info.description) :
      Info.ofMember info.name label info.help = .ok info := by
    have hfree := h.writable.free
    have hcondition := h.writable.condition
    have haccess := h.access
    obtain ⟨name, description, help, access, condition⟩ := info
    dsimp only at hfree hcondition haccess hlabel ⊢
    rw [Info.ofMember, hfree, if_neg (by decide), hlabel, haccess, hcondition]
  have hrest (label : Option String) (hlabel : label.getD "" = info.description) :
      Yields l (do
        let help ← help?
        let value ← taking (Info.ofMember info.name label help)
        changing (add value)) ((info.help.map quote).toList ++ ps) e ps :=
    (yields_help? h.writable.help hps).bind
      ((yields_taking (hmember label hlabel)).bind (yields_changing hadd))
  refine yields_note.bind ?_
  rcases h.writable.label with hempty | hlabel
  · -- No description is written as an empty text, which is read as none.
    rw [Info.texts, hempty]
    exact yields_label?_empty.bind (hrest none hempty.symm)
  · exact (yields_label? hlabel).bind (hrest _ rfl)

/-! ## Counts, bounds and words -/

theorem begins_quoted_ne {c : Char} {body : List Char} (h : c ≠ '"') :
    begins c (.quoted body :: ps) = false := by
  rw [begins, decide_eq_false_iff_not]
  exact fun hc => h (Option.some.inj hc).symm

theorem yields_instances? {count : Option Nat} {body : List Char}
    (h : ∀ n ∈ count, n < 2 ^ 31) :
    Yields l instances? ((count.map fun n => word (toString n)).toList ++ .quoted body :: ps)
      (count.map fun n => (n : Int)) (.quoted body :: ps) := by
  refine yields_peekInt.bind ?_
  cases count with
  | none =>
    -- What follows is the label, and a text in quotes is no integer.
    have hnone : ((.quoted body :: ps).head?.bind fun p => Text.int32? p.first.toList) = none :=
      Token.Stream.int32?_quoted body
    rw [Option.map_none, Option.toList_none, List.nil_append, hnone, if_neg (by decide)]
    refine yields_seesStart.bind ?_
    rw [begins_quoted_ne (by decide), if_neg (by decide)]
    exact yields_pure
  | some n =>
    have hint : Text.int32? (word (toString n)).first.toList = some (n : Int) := by
      rw [word, Piece.first_plain (isPlain_toString n).wellFormed, String.ofList_toList]
      exact int32?_toString (h n rfl)
    rw [Option.map_some, Option.toList_some, List.singleton_append, List.head?_cons,
      Option.bind_some, hint, Option.isSome_some, if_pos rfl]
    exact (yields_nextInt hint).bind yields_pure

theorem yields_bound (h : IsPlain text.toList) : Yields l bound (word text :: ps) text ps := by
  refine yields_seesStart.bind ?_
  rw [begins_word h (by decide), if_neg (by decide)]
  refine yields_word fun token htoken => ?_
  rw [← htoken]
  exact yields_pure

theorem yields_access {access : Access} :
    Yields l Reading.access (word access.word :: ps) access ps := by
  refine yields_line fun before => yields_word fun token htoken => yields_taking ?_
  rw [htoken, Access.ofText_word]

theorem yields_caseRule {caseRule : CaseRule} :
    Yields l Reading.caseRule (word caseRule.word :: ps) caseRule ps := by
  refine yields_text_word.bind ?_
  rw [CaseRule.ofWord?_word]
  exact yields_pure

theorem yields_capacity {construct : Construct} {opened : Nat} {capacity : Capacity} :
    Yields l (Reading.capacity construct opened) (word capacity.word :: ps) capacity ps := by
  refine yields_tokenText_word.bind ?_
  rw [Capacity.ofWord?_word]
  exact yields_pure

theorem yields_keys {construct : Construct} {opened : Nat} :
    Yields l (keys construct opened) (word "\x7b\x7d" :: ps) [] ps :=
  yields_tokenText_word.bind yields_pure

theorem yields_referencePath (h : IsReferencePath text) :
    Yields l referencePath (word text :: ps) text ps := by
  refine yields_text_word.bind ?_
  unfold IsReferencePath at h
  split at h
  · rename_i relative hpath
    have hfind : ((relative.splitOn '/').find? fun step => step ≠ ['*'] && !isName true step) = none := by
      rw [List.find?_eq_none]
      intro step hstep
      rcases h.2 step hstep with rfl | hname
      · simp
      · simp [hname]
    simp only [hpath, if_neg (hpath ▸ h.1), hfind]
    exact yields_pure
  · exact h.elim

/-! ## Keywords -/

/-- A keyword leads its clause. -/
theorem ofToken_keyword {κ : Type} {keywords : List (String × κ)} {kind : κ} {token : Token}
    (h : keywords.lookup text.toLower = some kind) (htoken : token.text = text) :
    Lead.ofToken keywords token = .clause kind := by
  rw [Lead.ofToken, htoken, h]

theorem yields_keyword {κ : Type} (keywords : List (String × κ)) (kind : κ)
    {f : Option Token → Reading α} {a : α} (h : keywords.lookup text.toLower = some kind)
    (hf : ∀ token, Lead.ofToken keywords token = .clause kind → Yields l (f (some token)) ps a ps') :
    Yields l (token? >>= f) (word text :: ps) a ps' :=
  yields_word fun token htoken => hf token (ofToken_keyword h htoken)

/-- A word that is no keyword ends the clauses, unless a comment begins with it. -/
theorem ofToken_other {κ : Type} {keywords : List (String × κ)} {token : Token}
    (h : keywords.lookup text.toLower = none) (hhash : text.toList.head? ≠ some '#')
    (htoken : token.text = text) : Lead.ofToken keywords token = .other := by
  rw [Lead.ofToken, htoken, h]
  exact if_neg hhash

end Values
end Statement.Reading
end DeviceSchema
