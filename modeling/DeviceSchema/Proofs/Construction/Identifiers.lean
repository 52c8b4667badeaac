import Mathlib.Logic.Relation
import DeviceSchema.Proofs.Construction.WellFormed
import DeviceSchema.Text.Pattern

/-! # Identifiers of names

Generated code calls a node by its name with the marks rewritten that no identifier of C can have:
a hyphen becomes an underscore and a full stop `_fullstop_`.  Colons are left alone, so a name is
made an identifier if and only if it has none (`isIdentifier_iff`).

The marks are rewritten to what names may have in them anyway.  Two names come to the same
identifier if and only if one can be had from the other by **respelling** marks, here in one
direction and there in the other (`identifier_eq_iff`).  Siblings have different names, but nothing
keeps them from being respellings of each other (`identifiers_of_siblings`,
`shared_identifier_small`).
-/
namespace DeviceSchema
open Statement.Reading (isName isNameStart isNamePart)

/-- An identifier of C. -/
def IsIdentifier : List Char → Prop
  | [] => False
  | c :: rest => (c = '_' ∨ c.isAlpha) ∧ ∀ d ∈ rest, d = '_' ∨ d.isAlphanum

instance : DecidablePred IsIdentifier
  | [] => inferInstanceAs (Decidable False)
  | c :: rest =>
    haveI : Decidable (∀ d ∈ rest, d = '_' ∨ d.isAlphanum) := List.decidableBAll _ rest
    inferInstanceAs (Decidable ((c = '_' ∨ c.isAlpha) ∧ ∀ d ∈ rest, d = '_' ∨ d.isAlphanum))

/-- A hyphen is spelled as an underscore, or a full stop is spelled out. -/
inductive Respells : List Char → List Char → Prop
  | hyphen (before after : List Char) : Respells (before ++ '-' :: after) (before ++ '_' :: after)
  | stop (before after : List Char) :
      Respells (before ++ '.' :: after) (before ++ ("_fullstop_".toList ++ after))

namespace Info
variable {c d : Char} {name name' : List Char} {info info' : Info}

theorem toList_identifier (info : Info) :
    info.identifier.toList = info.name.toList.flatMap identifierPart :=
  String.toList_ofList

section Form

theorem colon_notMem_of_isIdentifier (h : IsIdentifier name) : ':' ∉ name := by
  cases name with
  | nil => exact List.not_mem_nil
  | cons c rest =>
    intro hmem
    rcases List.mem_cons.mp hmem with rfl | hmem
    · exact absurd h.1 (by decide)
    · exact absurd (h.2 ':' hmem) (by decide)

/-- What a character of a name is rewritten to can stand in an identifier, unless it is a colon. -/
theorem identifierPart_alphanum (hc : isNamePart c = true) (hcolon : c ≠ ':')
    (hd : d ∈ identifierPart c) : d = '_' ∨ d.isAlphanum := by
  unfold identifierPart at hd
  split at hd
  · exact .inl (List.mem_singleton.mp hd)
  · split at hd
    · have hletters : "_fullstop_".toList.all (fun d => d = '_' ∨ d.isAlphanum) = true := by decide
      exact of_decide_eq_true (List.all_eq_true.mp hletters d hd)
    · obtain rfl := List.mem_singleton.mp hd
      simp only [isNamePart, isNameStart, Bool.or_eq_true, decide_eq_true_eq] at hc
      simp only [Char.isAlphanum, Bool.or_eq_true]
      tauto

/-- The first character of a name begins an identifier as it is, unless it is a colon. -/
theorem identifierPart_start (hc : isNameStart c = true) (hcolon : c ≠ ':') :
    identifierPart c = [c] ∧ (c = '_' ∨ c.isAlpha) := by
  have hletter : c = '_' ∨ c.isAlpha := by
    simp only [isNameStart, Bool.or_eq_true, decide_eq_true_eq] at hc
    tauto
  have hhyphen : c ≠ '-' := by
    rintro rfl
    exact absurd hc (by decide)
  have hstop : c ≠ '.' := by
    rintro rfl
    exact absurd hc (by decide)
  exact ⟨by rw [identifierPart, if_neg hhyphen, if_neg hstop], hletter⟩

/-- **A name is made an identifier if and only if it has no colon.** -/
theorem isIdentifier_iff (h : isName false name = true) :
    IsIdentifier (name.flatMap identifierPart) ↔ ':' ∉ name := by
  constructor
  · intro hident hcolon
    refine colon_notMem_of_isIdentifier hident (List.mem_flatMap.mpr ⟨':', hcolon, ?_⟩)
    decide
  · intro hcolon
    cases name with
    | nil => cases h
    | cons c rest =>
      simp only [isName, Bool.false_and, Bool.or_false, Bool.and_eq_true, List.all_eq_true] at h
      rw [List.mem_cons, not_or] at hcolon
      obtain ⟨hpart, hletter⟩ := identifierPart_start h.1 (Ne.symm hcolon.1)
      rw [List.flatMap_cons, hpart]
      refine ⟨hletter, fun d hd => ?_⟩
      obtain ⟨e, he, hd⟩ := List.mem_flatMap.mp hd
      refine identifierPart_alphanum (h.2 e he) ?_ hd
      rintro rfl
      exact hcolon.2 he

end Form

section Spelling

theorem flatMap_identifierPart_of_respells (h : Respells name name') :
    name.flatMap identifierPart = name'.flatMap identifierPart := by
  cases h with
  | hyphen before after =>
    rw [List.flatMap_append, List.flatMap_append]
    rfl
  | stop before after =>
    rw [List.flatMap_append, List.flatMap_append, List.flatMap_append]
    rfl

/-- A name is respelled to its identifier mark by mark.  The induction is on what has not been
respelled yet, behind whatever has. -/
theorem respells_flatMap (before name : List Char) : Relation.EqvGen Respells (before ++ name)
    (before ++ name.flatMap identifierPart) := by
  induction name generalizing before with
  | nil => exact .refl _
  | cons c rest ih =>
    have hrest := ih (before ++ identifierPart c)
    rw [List.append_assoc, List.append_assoc] at hrest
    rw [List.flatMap_cons]
    refine .trans _ _ _ ?_ hrest
    by_cases hhyphen : c = '-'
    · subst hhyphen
      exact .rel _ _ (.hyphen before rest)
    · by_cases hstop : c = '.'
      · subst hstop
        exact .rel _ _ (.stop before rest)
      · rw [identifierPart, if_neg hhyphen, if_neg hstop]
        exact .refl _

theorem flatMap_identifierPart_of_eqvGen (h : Relation.EqvGen Respells name name') :
    name.flatMap identifierPart = name'.flatMap identifierPart := by
  induction h with
  | rel _ _ h => exact flatMap_identifierPart_of_respells h
  | refl => rfl
  | symm _ _ _ ih => exact ih.symm
  | trans _ _ _ _ _ ih ih' => exact ih.trans ih'

/-- **Two names have the same identifier if and only if one is the other with marks respelled.** -/
theorem identifier_eq_iff : info.identifier = info'.identifier ↔
    Relation.EqvGen Respells info.name.toList info'.name.toList := by
  rw [← String.toList_inj, toList_identifier, toList_identifier]
  constructor
  · intro h
    have hleft := respells_flatMap [] info.name.toList
    have hright := respells_flatMap [] info'.name.toList
    rw [h] at hleft
    exact .trans _ _ _ hleft (.symm _ _ hright)
  · exact flatMap_identifierPart_of_eqvGen

theorem flatMap_identifierPart_eq_self (hhyphen : '-' ∉ name) (hstop : '.' ∉ name) :
    name.flatMap identifierPart = name := by
  have hkept : ∀ c ∈ name, identifierPart c = [c] := by
    intro c hc
    have hne : c ≠ '-' := fun h => hhyphen (h ▸ hc)
    have hne' : c ≠ '.' := fun h => hstop (h ▸ hc)
    rw [identifierPart, if_neg hne, if_neg hne']
  calc name.flatMap identifierPart = name.flatMap fun c => [c] := List.flatMap_congr hkept
    _ = name := List.flatMap_singleton' name

/-- A name without hyphens and full stops is its own identifier. -/
theorem identifier_eq_name (hhyphen : '-' ∉ info.name.toList) (hstop : '.' ∉ info.name.toList) :
    info.identifier = info.name := by
  rw [← String.toList_inj, toList_identifier, flatMap_identifierPart_eq_self hhyphen hstop]

end Spelling
end Info

section Siblings
variable {items : List Item}

theorem nodup_identifiers_iff : (items.map (·.info.identifier)).Nodup ↔
    items.Pairwise fun i j => ¬ Relation.EqvGen Respells i.name.toList j.name.toList := by
  rw [List.Nodup, List.pairwise_map]
  exact List.Pairwise.iff fun i j => not_congr Info.identifier_eq_iff

end Siblings

namespace Statement

/-- **A name is made an identifier if and only if it has no colon, and siblings have different
identifiers if and only if none is another one respelled.**  That is so where none of them has a
hyphen or a full stop in its name. -/
theorem identifiers_of_siblings [PatternCompiler] (limits : Limits) (streams : List Token.Stream)
    (kind : TableKind) :
    (∀ info : Info, isName false info.name.toList = true →
      (IsIdentifier info.identifier.toList ↔ ':' ∉ info.name.toList)) ∧
    ∀ names node, (names, node) ∈ ((sessionAfter limits streams).table kind).nodes →
      isName false node.info.name.toList = true ∧
      ∀ c, node.collection? = some c → (c.items.map Item.name).Nodup ∧
        ((c.items.map (·.info.identifier)).Nodup ↔
          c.items.Pairwise fun i j => ¬ Relation.EqvGen Respells i.name.toList j.name.toList) ∧
        ((∀ i ∈ c.items, '-' ∉ i.name.toList ∧ '.' ∉ i.name.toList) →
          (c.items.map (·.info.identifier)).Nodup) := by
  refine ⟨fun info h => ?_, fun names node hnode => ?_⟩
  · rw [Info.toList_identifier]
    exact Info.isIdentifier_iff h
  · have hsound := ((sessionAfter_sound limits streams).1 kind).nodes names node hnode
    refine ⟨hsound.name, fun c hc => ?_⟩
    have hsiblings := (hsound.wellFormed.collection c hc).siblings
    refine ⟨hsiblings, nodup_identifiers_iff, fun hplain => ?_⟩
    have hkept : c.items.map (·.info.identifier) = c.items.map Item.name :=
      List.map_congr_left fun i hi => Info.identifier_eq_name (hplain i hi).1 (hplain i hi).2
    rwa [hkept]

/-- A group with two elements that are called alike but for a mark, and one with a colon. -/
def markedSource : String :=
  "group setting g \"G\" " ++ "element a-b \"A\" type on_off " ++
    "element a_b \"B\" type on_off " ++ "element ns:e \"E\" type on_off"

attribute [local instance] Text.Pattern.compiler in
/-- **A name that is read need not be made an identifier, and siblings can share one.** -/
theorem shared_identifier_small : ∃ stream, Token.Stream.ofSource markedSource = .ok stream ∧
    (read stream (.ofLimits {})).result = .ok () ∧
    (((sessionAfter {} [stream]).resolve ⟨.setting, ["g"]⟩).bind Node.collection?).map
      (fun c => c.items.map fun i => (i.name, i.info.identifier)) =
        some [("a-b", "a_b"), ("a_b", "a_b"), ("ns:e", "ns:e")] ∧
    ¬ IsIdentifier "ns:e".toList := by
  refine ⟨⟨none, Token.Stream.numberedLines markedSource, 0, none⟩, rfl, ?_, ?_, ?_⟩
  · exact except_ok_of_isSome (by decide +kernel)
  · decide +kernel
  · decide

end Statement
end DeviceSchema
