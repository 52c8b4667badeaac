import DeviceSchema.Proofs.Text.Numeral
import DeviceSchema.Proofs.Writing.Pieces

/-! # Texts that are plain words

Names, numerals and paths of references are written without quotes.  All of them are
**plain**: they consist of letters, digits and a few marks, so none of their characters is
blank and none begins a text in quotes, a comment or an expression.  From plain texts and
quotable ones it follows that all pieces of a writable group are well formed
(`Group.pieces_wellFormed`).
-/
namespace DeviceSchema
open Text Token Token.Piece
open Statement.Reading (isName isNameStart isNamePart)

section Plain
variable {text : List Char} {c : Char}

/-- A letter, a digit or a mark that occurs in names, numerals and paths. -/
def isPlain (c : Char) : Bool := c.isAlphanum || "_:.-+*/".toList.contains c

/-- A non-empty text without blanks and quotes. -/
def IsPlain (text : List Char) : Prop := text ≠ [] ∧ ∀ c ∈ text, isPlain c = true

theorem isPlain_of_isAlphanum (h : c.isAlphanum = true) : isPlain c = true := by
  rw [isPlain, h, Bool.true_or]

/-- All plain characters lie behind the parentheses in ASCII. -/
theorem toNat_of_isPlain (h : isPlain c = true) : 42 ≤ c.toNat ∧ c.toNat < 128 := by
  have hwithin {low high : Char} (hlow : low ≤ c) (hhigh : c ≤ high) (hbounds : '*' ≤ low)
      (hascii : high ≤ '~') : 42 ≤ c.toNat ∧ c.toNat < 128 :=
    ⟨Nat.le_trans hbounds hlow, Nat.lt_of_le_of_lt (Nat.le_trans hhigh hascii) (by decide)⟩
  have hcases : ((c.isUpper || c.isLower) || c.isDigit || "_:.-+*/".toList.contains c) = true := h
  simp only [Bool.or_eq_true] at hcases
  rcases hcases with ((hupper | hlower) | hdigit) | hmark
  · obtain ⟨hlow, hhigh⟩ : 'A' ≤ c ∧ c ≤ 'Z' := of_decide_eq_true hupper
    exact hwithin hlow hhigh (by decide) (by decide)
  · obtain ⟨hlow, hhigh⟩ := (Bool.and_eq_true _ _).mp hlower
    exact hwithin (of_decide_eq_true hlow) (of_decide_eq_true hhigh) (by decide) (by decide)
  · obtain ⟨hlow, hhigh⟩ := (Bool.and_eq_true _ _).mp hdigit
    exact hwithin (of_decide_eq_true hlow) (of_decide_eq_true hhigh) (by decide) (by decide)
  · have hall : "_:.-+*/".toList.all (fun d => decide (42 ≤ d.toNat ∧ d.toNat < 128)) = true := by
      decide
    exact of_decide_eq_true (List.all_eq_true.mp hall c (by simpa using hmark))

theorem isBlank_of_isPlain (h : isPlain c = true) : isBlank c = false := by
  obtain ⟨hlow, hhigh⟩ := toNat_of_isPlain h
  rw [isBlank, if_pos hhigh]
  simp only [Bool.or_eq_false_iff, beq_eq_false_iff_ne, Bool.and_eq_false_iff, decide_eq_false_iff_not]
  omega

/-- A plain text begins with none of the characters that stand before `*` in ASCII. -/
theorem IsPlain.head?_ne (h : IsPlain text) (hc : c.toNat < 42) : text.head? ≠ some c := by
  intro hhead
  have hplain := h.2 c (List.mem_of_mem_head? hhead)
  have hbound := toNat_of_isPlain hplain
  omega

theorem IsPlain.wellFormed (h : IsPlain text) : (plain text).WellFormed :=
  ⟨h.1, fun c hc => isBlank_of_isPlain (h.2 c hc), h.head?_ne (by decide), h.head?_ne (by decide)⟩

theorem IsPlain.cons (hc : isPlain c = true) (h : IsPlain text) : IsPlain (c :: text) :=
  ⟨List.cons_ne_nil c text, List.forall_mem_cons.mpr ⟨hc, h.2⟩⟩

/-! ## Numerals -/

theorem isPlain_of_digit? {radix d : Nat} (h : digit? radix c = some d) : isPlain c = true := by
  refine isPlain_of_isAlphanum ?_
  have hsome : (digitWeight c).isSome := by
    rw [digit?] at h
    cases hweight : digitWeight c with
    | none => simp [hweight] at h
    | some w => rfl
  show (c.isUpper || c.isLower || c.isDigit) = true
  rw [Bool.or_eq_true, Bool.or_eq_true]
  unfold digitWeight at hsome
  split at hsome
  · rename_i hdigit
    exact .inr ((Bool.and_eq_true _ _).mpr ⟨decide_eq_true hdigit.1, decide_eq_true hdigit.2⟩)
  split at hsome
  · rename_i hlower
    exact .inl (.inr ((Bool.and_eq_true _ _).mpr ⟨decide_eq_true hlower.1, decide_eq_true hlower.2⟩))
  split at hsome
  · rename_i hupper
    exact .inl (.inl (decide_eq_true hupper))
  · cases hsome

theorem isPlain_of_digitsAfter? {radix value n : Nat} (h : digitsAfter? radix value text = some n) :
    ∀ c ∈ text, isPlain c = true := by
  induction text generalizing value with
  | nil => simp
  | cons c rest ih =>
    obtain ⟨d, hd, hrest⟩ := Option.bind_eq_some_iff.mp h
    exact List.forall_mem_cons.mpr ⟨isPlain_of_digit? hd, ih hrest⟩

theorem isPlain_of_numeral? {radix n : Nat} (h : numeral? radix text = some n) : IsPlain text := by
  unfold numeral? at h
  split at h
  · cases h
  · rename_i hne
    exact ⟨fun hnil => hne (by rw [hnil]; rfl), isPlain_of_digitsAfter? h⟩

theorem isPlain_of_signed? {radix : Nat} {value : Int} (h : signed? radix text = some value) :
    IsPlain text := by
  unfold signed? at h
  split at h
  all_goals
    obtain ⟨n, hn, -⟩ := Option.map_eq_some_iff.mp h
    obtain ⟨m, hm, -⟩ := Option.bind_eq_some_iff.mp hn
  · exact (isPlain_of_numeral? hm).cons (by decide)
  · exact (isPlain_of_numeral? hm).cons (by decide)
  · exact isPlain_of_numeral? hm

/-- **What is read as an integer is a plain word.** -/
theorem isPlain_of_integerOfText? {text : String} {value : Int}
    (h : integerOfText? text = some value) : IsPlain text.toList := by
  unfold integerOfText? at h
  obtain ⟨hvalue, -⟩ := Option.filter_eq_some_iff.mp h
  split at hvalue
  · rename_i digits hdigits
    rw [hdigits]
    exact ((isPlain_of_signed? hvalue).cons (by decide)).cons (by decide)
  · exact isPlain_of_signed? hvalue

theorem digit?_of_isDigit (h : c.isDigit = true) : digit? 10 c = some (c.toNat - '0'.toNat) := by
  obtain ⟨hlow, hhigh⟩ := (Bool.and_eq_true _ _).mp h
  have hrange : '0' ≤ c ∧ c ≤ '9' := ⟨of_decide_eq_true hlow, of_decide_eq_true hhigh⟩
  have hnine : c.toNat ≤ 57 := hrange.2
  have hzero : '0'.toNat = 48 := rfl
  rw [digit?, digitWeight, if_pos hrange, Option.filter_some, if_pos]
  rw [decide_eq_true_eq]
  omega

/-- Decimal digits are read as the core library reads them. -/
theorem digitsAfter?_eq_ofDigitChars (h : ∀ c ∈ text, c.isDigit = true) (value : Nat) :
    digitsAfter? 10 value text = some (Nat.ofDigitChars 10 text value) := by
  induction text generalizing value with
  | nil => rw [digitsAfter?, Nat.ofDigitChars_nil]
  | cons c rest ih =>
    rw [List.forall_mem_cons] at h
    rw [digitsAfter?, digit?_of_isDigit h.1, Option.bind_some, ih h.2, Nat.ofDigitChars_cons,
      Nat.mul_comm value]

theorem toList_toString (n : Nat) : (toString n).toList = Nat.toDigits 10 n := by
  rw [Nat.toString_eq_repr, Nat.toList_repr]

theorem isDigit_of_mem_toString {n : Nat} (h : c ∈ (toString n).toList) : c.isDigit = true := by
  rw [toList_toString] at h
  exact Nat.isDigit_of_mem_toDigits (by decide) (by decide) h

theorem isPlain_toString (n : Nat) : IsPlain (toString n).toList := by
  refine ⟨?_, fun c hc => isPlain_of_isAlphanum ?_⟩
  · rw [toList_toString]
    exact Nat.toDigits_ne_nil
  · rw [Char.isAlphanum, isDigit_of_mem_toString hc, Bool.or_true]

/-- **A count that is written is read back.** -/
theorem int32?_toString {n : Nat} (h : n < 2 ^ 31) : int32? (toString n).toList = some (n : Int) := by
  have hnumeral : numeral? 10 (toString n).toList = some n := by
    rw [numeral?, if_neg (by simp),
      digitsAfter?_eq_ofDigitChars fun c hc => isDigit_of_mem_toString hc, toList_toString,
      Nat.ofDigitChars_ten_toDigits]
  have hsigned : signed? 10 (toString n).toList = some (n : Int) := by
    unfold signed?
    split
    · rename_i hdigits
      exact absurd (isDigit_of_mem_toString (by rw [hdigits]; exact List.mem_cons_self)) (by decide)
    · rename_i hdigits
      exact absurd (isDigit_of_mem_toString (by rw [hdigits]; exact List.mem_cons_self)) (by decide)
    · rw [hnumeral]
      rfl
  have hfits : fitsSigned 32 (n : Int) = true := by
    have hbound : Nat.pow 2 (32 - 1) = 2 ^ 31 := rfl
    simp only [fitsSigned, Bool.and_eq_true, decide_eq_true_eq, hbound]
    omega
  rw [int32?, hsigned, Option.filter_some, if_pos hfits]

/-! ## Names and paths -/

theorem isPlain_of_isNamePart (h : isNamePart c = true) : isPlain c = true := by
  simp only [isNamePart, isNameStart, Bool.or_eq_true, decide_eq_true_eq] at h
  rcases h with ((((rfl | rfl) | halpha) | hdigit) | rfl) | rfl
  · decide
  · decide
  · exact isPlain_of_isAlphanum (by rw [Char.isAlphanum, halpha, Bool.true_or])
  · exact isPlain_of_isAlphanum (by rw [Char.isAlphanum, hdigit, Bool.or_true])
  · decide
  · decide

theorem isPlain_of_isName {ofMember : Bool} (h : isName ofMember text = true) : IsPlain text := by
  cases text with
  | nil => cases h
  | cons c rest =>
    simp only [isName, Bool.and_eq_true, Bool.or_eq_true, List.all_eq_true] at h
    refine ⟨List.cons_ne_nil c rest, List.forall_mem_cons.mpr ⟨?_, fun d hd => ?_⟩⟩
    · refine isPlain_of_isNamePart ?_
      rcases h.1 with hstart | ⟨-, hdigit⟩
      · simp [isNamePart, hstart]
      · simp [isNamePart, hdigit]
    · exact isPlain_of_isNamePart (h.2 d hd)

/-- A character of a text is a separator or in a part between separators. -/
theorem mem_splitOn {a : Char} (h : c ∈ text) : c = a ∨ ∃ part ∈ text.splitOn a, c ∈ part := by
  have hjoined (parts : List (List Char)) (hc : c ∈ [a].intercalate parts) :
      c = a ∨ ∃ part ∈ parts, c ∈ part := by
    induction parts with
    | nil => cases hc
    | cons part rest ih =>
      by_cases hrest : rest = []
      · rw [hrest, List.intercalate_singleton] at hc
        exact .inr ⟨part, List.mem_cons_self, hc⟩
      · rw [List.intercalate_cons_of_ne_nil hrest, List.mem_append, List.mem_append] at hc
        rcases hc with (hc | hc) | hc
        · exact .inr ⟨part, List.mem_cons_self, hc⟩
        · exact .inl (List.mem_singleton.mp hc)
        · exact (ih hc).imp id fun ⟨part', hpart', hc⟩ =>
            ⟨part', List.mem_cons_of_mem part hpart', hc⟩
  exact hjoined _ (by rw [List.intercalate_splitOn]; exact h)

theorem isPlain_of_isReferencePath {path : String} (h : IsReferencePath path) :
    IsPlain path.toList := by
  unfold IsReferencePath at h
  split at h
  · rename_i relative hpath
    rw [hpath]
    refine ⟨List.cons_ne_nil _ _, List.forall_mem_cons.mpr ⟨by decide, fun c hc => ?_⟩⟩
    rcases mem_splitOn (a := '/') hc with rfl | ⟨step, hstep, hc⟩
    · decide
    rcases h.2 step hstep with rfl | hname
    · rw [List.mem_singleton.mp hc]
      decide
    · exact (isPlain_of_isName hname).2 c hc
  · exact h.elim

end Plain

/-! ## Pieces of groups -/

section Pieces
variable {limits : Limits} {e : Element} {info : Info} {h : Head} {g : Group}

theorem wellFormed_clause {α : Type} {keyword : String} {write : α → Piece} {declared : Option α}
    (hkeyword : (word keyword).WellFormed) (hwrite : ∀ a ∈ declared, (write a).WellFormed) :
    ∀ p ∈ clause keyword write declared, p.WellFormed := by
  cases declared with
  | none => simp [clause]
  | some a =>
    rw [clause, List.forall_mem_cons, List.forall_mem_singleton]
    exact ⟨hkeyword, hwrite a rfl⟩

theorem Info.Writable.texts (hinfo : info.Writable) : ∀ p ∈ info.texts, p.WellFormed := by
  refine List.forall_mem_cons.mpr ⟨⟨fun h => ?_, fun h => ?_⟩, fun p hp => ?_⟩
  · exact hinfo.quotable.1 (mem_of_mem_halveColons h)
  · exact hinfo.quotable.2 (mem_of_mem_halveColons h)
  · rw [Option.mem_toList] at hp
    obtain ⟨help, hhelp, rfl⟩ := Option.map_eq_some_iff.mp hp
    exact (hinfo.help help hhelp).2.2

theorem Limits.Admits.wellFormed {ofMember : Bool} {name : String}
    (hname : limits.Admits ofMember name) : (word name).WellFormed :=
  (isPlain_of_isName hname.2).wellFormed

theorem wellFormed_access (access : Access) : (word access.word).WellFormed := by
  cases access <;> decide

theorem wellFormed_type (type : ValueType) : (word type.word).WellFormed := by
  cases type <;> decide

theorem wellFormed_caseRule (caseRule : CaseRule) : (word caseRule.word).WellFormed := by
  cases caseRule <;> decide

theorem wellFormed_capacity (capacity : Capacity) : (word capacity.word).WellFormed := by
  cases capacity <;> decide

theorem wellFormed_memberClauses {keyword : String} {write : String → Piece} {members : List Info}
    (hkeyword : (word keyword).WellFormed) (hmembers : ∀ info ∈ members, info.WritableMember)
    (hwrite : ∀ info ∈ members, (write info.name).WellFormed) :
    ∀ p ∈ members.flatMap (Info.memberClause keyword write), p.WellFormed := by
  refine List.forall_mem_flatMap.mpr fun info hinfo => ?_
  rw [Info.memberClause, List.forall_mem_cons, List.forall_mem_cons]
  exact ⟨hkeyword, hwrite info hinfo, (hmembers info hinfo).writable.texts⟩

/-- A bound of an element that can be written is a plain word. -/
theorem Element.Writable.bound [PatternCompiler] (he : e.Writable limits) {text : String}
    (hbound : e.min = some text ∨ e.max = some text) : IsPlain text.toList := by
  rcases Element.bound_of_check he.check hbound with ⟨value, hvalue⟩ | ⟨hfloat, -⟩
  · exact isPlain_of_integerOfText? hvalue
  · exact absurd hfloat he.notFloat

theorem Element.Writable.wellFormed_valueName [PatternCompiler] (he : e.Writable limits) :
    ∀ value ∈ e.values, (e.valueName value.name).WellFormed := by
  intro value hvalue
  have hname := he.valueName value hvalue
  unfold Element.valueName
  split at hname
  · rw [if_pos ‹_›]
    exact hname.wellFormed
  · rw [if_neg ‹_›]
    exact hname

theorem Element.Writable.body [PatternCompiler] (he : e.Writable limits) :
    ∀ p ∈ e.body, p.WellFormed := by
  have hclauses : ∀ p ∈ e.clauses, p.WellFormed := by
    unfold Element.clauses
    simp only [List.forall_mem_append]
    refine ⟨?type, ?access, ?min, ?max, ?default, ?units, ?pattern, ?caseRule, ?wording, ?value, ?ref⟩
    case type => exact wellFormed_clause (by decide) fun type _ => wellFormed_type type
    case access => exact wellFormed_clause (by decide) fun access _ => wellFormed_access access
    case min => exact wellFormed_clause (by decide) fun _ ht => (he.bound (.inl ht)).wellFormed
    case max => exact wellFormed_clause (by decide) fun _ ht => (he.bound (.inr ht)).wellFormed
    case default => exact wellFormed_clause (by decide) he.default
    case units => exact wellFormed_clause (by decide) he.units
    case pattern => exact wellFormed_clause (by decide) fun text ht => (he.pattern text ht).2
    case caseRule =>
      exact wellFormed_clause (by decide) fun caseRule _ => wellFormed_caseRule caseRule
    case wording => exact wellFormed_clause (by decide) he.wording
    case value => exact wellFormed_memberClauses (by decide) he.values he.wellFormed_valueName
    case ref =>
      exact wellFormed_memberClauses (by decide) he.references fun reference hr =>
        (isPlain_of_isReferencePath (he.referencePath reference hr)).wellFormed
  refine List.forall_mem_cons.mpr ⟨he.info.name.wellFormed, ?_⟩
  exact List.forall_mem_append.mpr ⟨he.info.writable.texts, hclauses⟩

theorem Collection.Writable.opening {c : Collection} (hc : c.Writable limits) :
    ∀ p ∈ c.head.opening, p.WellFormed := by
  refine List.forall_mem_cons.mpr ⟨hc.info.name.wellFormed, ?_⟩
  refine List.forall_mem_append.mpr ⟨fun p hp => ?_, hc.info.writable.texts⟩
  rw [Option.mem_toList] at hp
  obtain ⟨count, -, rfl⟩ := Option.map_eq_some_iff.mp hp
  exact (isPlain_toString count).wellFormed

theorem Head.clauses_wellFormed : ∀ p ∈ h.clauses, p.WellFormed :=
  List.forall_mem_append.mpr
    ⟨wellFormed_clause (by decide) fun capacity _ => wellFormed_capacity capacity,
      wellFormed_clause (by decide) fun _ _ => by decide⟩

theorem Item.wellFormed_keyword (i : Item) : (word i.keyword).WellFormed := by
  cases i with
  | element e => exact (by decide : (word "element").WellFormed)
  | list head items => exact (by decide : (word "list").WellFormed)

theorem Item.pieces_wellFormed [PatternCompiler] {i : Item} {path : List String}
    (hi : i.Writable limits path) :
    ∀ p ∈ i.pieces, p.WellFormed := by
  induction i using Item.induction generalizing path with
  | element e =>
    have he : e.Writable limits := hi.node
    exact List.forall_mem_cons.mpr ⟨wellFormed_keyword _, he.body⟩
  | list head items ih =>
    obtain ⟨hc, -⟩ := hi.node
    have hbelow : ∀ p ∈ piecesBelow items, p.WellFormed := by
      rw [piecesBelow_eq_flatMap]
      exact List.forall_mem_flatMap.mpr fun i hmem => ih i hmem (hi.below hmem)
    rw [pieces, body]
    simp only [List.forall_mem_cons, List.forall_mem_append]
    exact ⟨wellFormed_keyword _, hc.opening, Head.clauses_wellFormed,
      wellFormed_clause (by decide) fun access _ => wellFormed_access access, hbelow, by decide,
      by simp⟩

theorem Notice.pieces_wellFormed {notice : Notice} (hname : limits.Admits false notice.name)
    (hdescription : IsPhrase notice.description) : ∀ p ∈ notice.pieces, p.WellFormed := by
  simp only [Notice.pieces, List.forall_mem_cons]
  exact ⟨by decide, hname.wellFormed, hdescription.2.2, by simp⟩

/-- **All pieces of a writable group are well formed.** -/
theorem Group.pieces_wellFormed [PatternCompiler] (kind : TableKind) (hg : g.Writable limits) :
    ∀ p ∈ g.pieces kind, p.WellFormed := by
  obtain ⟨hbody, -, -, herrors⟩ := hg.node
  have hbelow : ∀ p ∈ Item.piecesBelow g.body.items, p.WellFormed := by
    rw [Item.piecesBelow_eq_flatMap]
    exact List.forall_mem_flatMap.mpr fun i hmem => Item.pieces_wellFormed (hg.item hmem)
  have hnotices : ∀ p ∈ g.errors.flatMap Notice.pieces, p.WellFormed :=
    List.forall_mem_flatMap.mpr fun notice hmem =>
      Notice.pieces_wellFormed (herrors notice hmem).1 (herrors notice hmem).2
  rw [pieces, declaration]
  simp only [List.forall_mem_cons, List.forall_mem_append]
  exact ⟨by decide, by cases kind <;> decide, hbody.opening, Head.clauses_wellFormed, hbelow,
    hnotices, by decide, by simp⟩

end Pieces
end DeviceSchema
