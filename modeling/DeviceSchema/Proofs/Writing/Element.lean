import DeviceSchema.Proofs.Writing.Values
import DeviceSchema.Statement.Element

/-! # Reading written elements

A loop over clauses goes through the clauses that were written one by one.  It **advances**
from a state over some pieces to another state when whatever it gives from the second
state on is what it gives from the first (`Advances`).  Advancing composes along the
clauses, so each clause is looked at alone, and what was declared so far is the state.

The clauses of an element end before the next keyword of the collection around it
(`Ahead`).  With them an element that can be written is read back as it was
(`yields_element`).
-/
namespace DeviceSchema.Statement.Reading
open Token (Piece)
open Token.Piece (word quote)
open Token.Stream (begins)

section Loops
variable {σ β : Type} {Q : List Piece → Prop} {l : Limits} {loop : Nat → σ → Reading σ}
  {d d' d'' : σ} {ps qs : List Piece}

/-- From the state `d` the loop reads `ps` and goes on from `d'`.  `Q` is what holds of the
pieces that follow; a piece takes at most one round of the loop. -/
def Advances (Q : List Piece → Prop) (l : Limits) (loop : Nat → σ → Reading σ) (d : σ)
    (ps : List Piece) (d' : σ) : Prop :=
  ∀ bound rest a rest', Q rest → (∀ m, bound ≤ m → Yields l (loop m d') rest a rest') →
    Q (ps ++ rest) ∧ ∀ m, bound + ps.length ≤ m → Yields l (loop m d) (ps ++ rest) a rest'

theorem Advances.refl : Advances Q l loop d [] d :=
  fun _ _ _ _ hrest hgoes => ⟨hrest, hgoes⟩

theorem Advances.trans (h : Advances Q l loop d ps d') (h' : Advances Q l loop d' qs d'') :
    Advances Q l loop d (ps ++ qs) d'' := by
  intro bound rest a rest' hrest hgoes
  obtain ⟨hrest₁, hgoes₁⟩ := h' bound rest a rest' hrest hgoes
  obtain ⟨hrest₂, hgoes₂⟩ := h _ _ a rest' hrest₁ hgoes₁
  rw [List.append_assoc]
  refine ⟨hrest₂, fun m hm => hgoes₂ m ?_⟩
  rw [List.length_append] at hm
  omega

/-- One round of the loop reads a keyword and what belongs to it. -/
theorem Advances.step {keyword : String} {args : List Piece}
    (hkeyword : ∀ more, Q (word keyword :: more))
    (h : ∀ m rest a rest', args.length ≤ m → Q rest → Yields l (loop m d') rest a rest' →
      Yields l (loop (m + 1) d) (word keyword :: (args ++ rest)) a rest') :
    Advances Q l loop d (word keyword :: args) d' := by
  intro bound rest a rest' hrest hgoes
  refine ⟨hkeyword _, fun m hm => ?_⟩
  rw [List.length_cons] at hm
  obtain ⟨m, rfl⟩ : ∃ k, m = k + 1 := ⟨m - 1, by omega⟩
  exact h m rest a rest' (by omega) hrest (hgoes m (by omega))

/-- A clause that need not be there.  The state depends on what it declares. -/
theorem Advances.clause {keyword : String} {write : β → Piece} {declared : Option β}
    (state : Option β → σ)
    (h : ∀ value ∈ declared,
      Advances Q l loop (state none) [word keyword, write value] (state (some value))) :
    Advances Q l loop (state none) (clause keyword write declared) (state declared) := by
  cases declared with
  | none => exact .refl
  | some value => exact h value rfl

/-- A clause for each entry of a list.  The state depends on the entries so far. -/
theorem Advances.flatMap {write : β → List Piece} {entries : List β} (state : List β → σ)
    (h : ∀ before entry after, entries = before ++ entry :: after →
      Advances Q l loop (state before) (write entry) (state (before ++ [entry]))) :
    Advances Q l loop (state []) (entries.flatMap write) (state entries) := by
  -- The induction is on the entries still to come; those that were read are in the state.
  have hfrom (after : List β) : ∀ before, entries = before ++ after →
      Advances Q l loop (state before) (after.flatMap write) (state entries) := by
    induction after with
    | nil =>
      rintro before rfl
      rw [List.append_nil]
      exact .refl
    | cons entry after ih =>
      intro before hentries
      rw [List.flatMap_cons]
      exact (h before entry after hentries).trans (ih (before ++ [entry]) (by simp [hentries]))
  exact hfrom entries [] rfl

end Loops

/-! ## Clauses of elements -/

section Clauses
variable {l : Limits} {opened : Nat} {here : Path} {e e' : Element} {ps rest args : List Piece}

/-- The next piece is no text in quotes. -/
def Unquoted (ps : List Piece) : Prop := begins '"' ps = false

/-- The next piece is a keyword that may follow an item. -/
def Ahead (ps : List Piece) : Prop :=
  ∃ keyword ∈ ["element", "list", "error", "end"], ∃ more, ps = word keyword :: more

theorem Ahead.unquoted (h : Ahead ps) : Unquoted ps := by
  obtain ⟨keyword, hkeyword, more, rfl⟩ := h
  revert keyword
  simp only [List.forall_mem_cons]
  exact ⟨rfl, rfl, rfl, rfl, by simp⟩

theorem advances_elementClause [PatternCompiler] {keyword : String} (kind : ElementClause)
    (hkeyword : elementKeywords.lookup keyword.toLower = some kind)
    (hunquoted : begins '"' [word keyword] = false)
    (h : ∀ rest, Unquoted rest →
      Yields l (elementClause opened here e kind) (args ++ rest) e' rest) :
    Advances Unquoted l (elementClauses opened here) e (word keyword :: args) e' := by
  refine .step (fun _ => hunquoted) fun m rest a rest' _ hrest hgoes =>
    yields_keyword elementKeywords kind hkeyword fun token hlead => ?_
  dsimp only
  rw [hlead]
  exact (h rest hrest).bind hgoes

/-- The clauses of an element end before a keyword that is none of theirs. -/
theorem yields_elementClauses_end [PatternCompiler] (h : Ahead rest) (bound : Nat) :
    Yields l (elementClauses opened here bound e) rest e rest := by
  cases bound with
  | zero => exact yields_pure
  | succ bound =>
    obtain ⟨keyword, hkeyword, more, rfl⟩ := h
    refine yields_handBack fun token htoken => ?_
    have hplain : ∀ k ∈ ["element", "list", "error", "end"],
        (word k).WellFormed ∧ elementKeywords.lookup k.toLower = none := by decide +kernel
    obtain ⟨hwell, hlookup⟩ := hplain keyword hkeyword
    rw [word, Piece.first_plain hwell, String.ofList_toList] at htoken
    dsimp only
    rw [ofToken_other hlookup hwell.2.2.2 htoken]

/-- A clause whose value is one piece. -/
theorem advances_declared [PatternCompiler] {β : Type} {keyword : String} {write : β → Piece}
    {declared : Option β} (kind : ElementClause) (state : Option β → Element)
    (hkeyword : elementKeywords.lookup keyword.toLower = some kind)
    (hunquoted : begins '"' [word keyword] = false)
    (h : ∀ value ∈ declared, ∀ rest,
      Yields l (elementClause opened here (state none) kind) (write value :: rest)
        (state (some value)) rest) :
    Advances Unquoted l (elementClauses opened here) (state none) (clause keyword write declared)
      (state declared) :=
  .clause state fun value hvalue =>
    advances_elementClause kind hkeyword hunquoted fun rest _ => h value hvalue rest

theorem yields_typeClause {type : ValueType} (he : e.type = none) :
    Yields l (typeClause opened e) (word type.word :: rest) { e with type := some type } rest := by
  refine yields_word fun token htoken => ?_
  have hdeclared : e.declareType token.text = .ok () { e with type := some type } :=
    Element.declareType_ok_iff.mpr ⟨he, type, by rw [htoken, ValueType.ofText_word], rfl⟩
  exact (yields_changing hdeclared).bind (yields_note.bind yields_pure)

theorem yields_patternClause [PatternCompiler] {pattern : String}
    (h : PatternCompiler.compile pattern = .ok ()) :
    Yields l (elementClause opened here e .pattern) (quote pattern :: rest)
      { e with rule := { e.rule with pattern := some pattern } } rest :=
  yields_text_quote.bind (yields_changing (Element.declarePattern_ok_iff.mpr ⟨h, rfl⟩))

/-- The entries of a list with distinct keys differ from the ones before them. -/
theorem keys_ne_before {β : Type} {key : β → String} {entries before after : List β} {entry : β}
    (h : (entries.map key).Nodup) (hentries : entries = before ++ entry :: after) :
    ∀ other ∈ before, key other ≠ key entry := by
  rw [hentries, List.map_append, List.map_cons, List.nodup_append] at h
  exact fun other hother => h.2.2 _ (List.mem_map_of_mem hother) _ List.mem_cons_self

variable [PatternCompiler]

theorem yields_valueClause {values : List Info} {value : Info} (he : e.Writable l)
    (hvalue : value ∈ e.values) (hnew : ∀ other ∈ values, other.name ≠ value.name)
    (hrest : Unquoted rest) :
    Yields l (valueClause { e with values, references := [] })
      (e.valueName value.name :: value.texts ++ rest)
      { e with values := values ++ [value], references := [] } rest := by
  have hname := he.valueName value hvalue
  obtain ⟨type, hmembers, hread⟩ : ∃ type,
      Element.memberType { e with values, references := [] } = .ok type ∧
      ∀ {f : String → Reading Element} {ps ps' e'}, Yields l (f value.name) ps e' ps' →
        Yields l (if type = .enum then memberName >>= f else Reading.text .missingName >>= f)
          (e.valueName value.name :: ps) e' ps' := by
    rcases he.valuesType (List.ne_nil_of_mem hvalue) with htype | htype
    · refine ⟨.enum, by rw [Element.memberType, htype], fun hf => ?_⟩
      rw [if_pos htype] at hname
      rw [if_pos rfl, Element.valueName, if_pos htype]
      exact (yields_memberName hname).bind hf
    · refine ⟨.refEnum, by rw [Element.memberType, htype], fun hf => ?_⟩
      rw [if_neg (by decide), Element.valueName, if_neg (by simp [htype])]
      exact yields_text_quote.bind hf
  have hadd : Element.addValue value { e with values, references := [] } =
      .ok () { e with values := values ++ [value], references := [] } :=
    Element.addValue_ok_iff.mpr ⟨he.valuesType (List.ne_nil_of_mem hvalue), hnew, rfl⟩
  exact (yields_taking hmembers).bind (hread (yields_member (he.values value hvalue) hrest hadd))

theorem yields_referenceClause {references : List Info} {reference : Info} (he : e.Writable l)
    (hreference : reference ∈ e.references)
    (hnew : ∀ other ∈ references, other.name ≠ reference.name) (hrest : Unquoted rest) :
    Yields l (referenceClause { e with references })
      (word reference.name :: reference.texts ++ rest)
      { e with references := references ++ [reference] } rest := by
  have hadd : Element.addReference reference { e with references } =
      .ok () { e with references := references ++ [reference] } :=
    Element.addReference_ok_iff.mpr
      ⟨he.referencesType (List.ne_nil_of_mem hreference), hnew, rfl⟩
  exact (yields_referencePath (he.referencePath reference hreference)).bind
    (yields_member (he.references reference hreference) hrest hadd)

/-- **The clauses of an element that can be written declare the element.** -/
theorem advances_clauses (he : e.Writable l) :
    Advances Unquoted l (elementClauses opened here) { info := { e.info with access := none } }
      e.clauses e := by
  unfold Element.clauses
  -- Each state says what was declared so far; from the pattern on it is shorter to say what
  -- was not.
  refine .trans (advances_declared .type
    (fun type => { info := { e.info with access := none }, type })
    (lookup_toLower (by decide) rfl) (by decide) fun type _ rest => yields_typeClause rfl) ?_
  refine .trans (advances_declared .access
    (fun access => { info := { e.info with access }, type := e.type })
    (lookup_toLower (by decide) rfl) (by decide) fun access _ rest =>
      yields_access.bind ((yields_taking rfl).bind yields_pure)) ?_
  refine .trans (advances_declared .min (fun min => { info := e.info, type := e.type, min })
    (lookup_toLower (by decide) rfl) (by decide) fun min hmin rest =>
      (yields_bound (he.bound (.inl hmin))).bind (yields_taking rfl)) ?_
  refine .trans (advances_declared .max
    (fun max => { info := e.info, type := e.type, min := e.min, max })
    (lookup_toLower (by decide) rfl) (by decide) fun max hmax rest =>
      (yields_bound (he.bound (.inr hmax))).bind (yields_taking rfl)) ?_
  refine .trans (advances_declared .default
    (fun default => { info := e.info, type := e.type, min := e.min, max := e.max, default })
    (lookup_toLower (by decide) rfl) (by decide) fun default _ rest =>
      yields_text_quote.bind (yields_taking rfl)) ?_
  refine .trans (advances_declared .units
    (fun units => { info := e.info, type := e.type, min := e.min, max := e.max
                    default := e.default, units })
    (lookup_toLower (by decide) rfl) (by decide) fun units _ rest =>
      yields_text_quote.bind (yields_taking rfl)) ?_
  refine .trans (advances_declared .pattern
    (fun pattern => { e with rule := { pattern }, values := [], references := [] })
    (lookup_toLower (by decide) rfl) (by decide) fun pattern hpattern rest =>
      yields_patternClause (he.pattern pattern hpattern).1) ?_
  refine .trans (advances_declared .caseRule
    (fun caseRule => { e with
      rule := { pattern := e.rule.pattern, caseRule }, values := [], references := [] })
    (lookup_toLower (by decide) rfl) (by decide) fun caseRule _ rest =>
      yields_caseRule.bind yields_pure) ?_
  refine .trans (advances_declared .wording
    (fun wording => { e with rule := { e.rule with wording }, values := [], references := [] })
    (lookup_toLower (by decide) rfl) (by decide) fun wording _ rest =>
      yields_text_quote.bind yields_pure) ?_
  refine .trans (.flatMap (fun values => { e with values, references := [] })
    fun before value after hvalues => ?value) (.flatMap (fun references => { e with references })
    fun before reference after hreferences => ?reference)
  case value =>
    have hmem : value ∈ e.values := hvalues ▸ List.mem_append_right before List.mem_cons_self
    exact advances_elementClause .value (lookup_toLower (by decide) rfl) (by decide)
      fun rest hrest => yields_valueClause he hmem (keys_ne_before he.valueNames hvalues) hrest
  case reference =>
    have hmem : reference ∈ e.references :=
      hreferences ▸ List.mem_append_right before List.mem_cons_self
    exact advances_elementClause .reference (lookup_toLower (by decide) rfl) (by decide)
      fun rest hrest =>
        yields_referenceClause he hmem (keys_ne_before he.referenceNames hreferences) hrest

/-- **An element that can be written is read back as it was.** -/
theorem yields_element {bound : Nat} {access : Access} {parent : Path} (he : e.Writable l)
    (hrest : Ahead rest) (hbound : e.body.length ≤ bound) :
    Yields l (element bound access parent) (e.body ++ rest) e rest := by
  have hlength : e.clauses.length ≤ bound := by
    simp only [Element.body, List.length_cons, List.length_append] at hbound
    omega
  refine yields_line fun opened => ?_
  have hadvances : Advances Unquoted l (elementClauses opened (parent.child e.name)) _ _ _ :=
    advances_clauses he
  obtain ⟨hunquoted, hclauses⟩ := hadvances 0 rest e rest hrest.unquoted
    fun m _ => yields_elementClauses_end hrest m
  rw [Element.body, List.cons_append, List.append_assoc]
  refine (yields_name he.info.name).bind (yields_texts he.info hunquoted ?_)
  refine (yields_taking (ofItem_writable he.info)).bind (yields_note.bind ?_)
  refine (hclauses bound (by omega)).bind ?_
  dsimp only
  rw [inheritAccess_eq he.access]
  refine (yields_closing he.check).bind ?_
  have htold : Yields l (do
      tell ((Event.ofDebug "Element parsed").details
        [("element", e.info.name), ("type", (e.type.map ValueType.word).getD ""),
          ("line", toString opened)])
      return e) rest e rest := yields_tell.bind yields_pure
  have hnoted : Yields l (onSession (·.noteRefEnum (parent.child e.name))) rest () rest :=
    yields_onSession fun _ => rfl
  split
  · exact hnoted.bind htold
  · exact htold

end Clauses
end DeviceSchema.Statement.Reading
