import DeviceSchema.Proofs.Text.Regular
import DeviceSchema.Proofs.Tree.Conformity

/-! # Which texts are addresses

The expressions for addresses are written for a reader that tries alternatives from left to right,
with parts that overlap: a number of two digits may begin like one of three, and a port could as
well be labels.  What they describe is simple nevertheless.

An **octet** is one of the 256 numbers to 255 as it is written in decimal, as the alternatives are
the numbers from 250 on, those of the two hundreds before and those of at most two digits
(`octet_matches_iff`).  An IPv4 address is four of them (`IsDotted`).  A **name** consists of
letters, digits, hyphens, points and colons, and any of them with a point or colon will do: it can be
cut behind every point or colon but the last (`plus_labels_of_isName`).  A port adds nothing to
that, and a scheme is told from a name by its slashes (`IsSchemedName`).

`Element.check_address_iff` states what this means for the defaults of elements.
-/
namespace DeviceSchema.Address
open Text Text.Regular
variable {text : List Char}

section Numbers

/-- A character between two digits is a digit. -/
theorem matches_digits_iff {low high : Nat} (hle : low ≤ high) (hhigh : high < 10) :
    (Regular.oneOf [(Nat.digitChar low, Nat.digitChar high)]).Matches text ↔
      ∃ d, low ≤ d ∧ d ≤ high ∧ text = [Nat.digitChar d] := by
  have hin (c : Char) : inRanges [(Nat.digitChar low, Nat.digitChar high)] c = true ↔
      48 + low ≤ c.toNat ∧ c.toNat ≤ 48 + high := by
    rw [← Nat.toNat_digitChar_of_lt_ten (hle.trans_lt hhigh),
      ← Nat.toNat_digitChar_of_lt_ten hhigh]
    simp only [inRanges_cons_iff, inRanges_nil, Bool.false_eq_true, or_false]
    rfl
  rw [matches_oneOf_iff]
  simp only [hin]
  constructor
  · rintro ⟨c, ⟨hge, hle⟩, rfl⟩
    obtain ⟨d, hd⟩ := Nat.exists_eq_add_of_le ((Nat.le_add_right 48 low).trans hge)
    have hc : c = Nat.digitChar d :=
      Char.toNat_inj.mp (hd.trans (Nat.toNat_digitChar_of_lt_ten (by omega)).symm)
    exact ⟨d, by omega, by omega, by rw [hc]⟩
  · rintro ⟨d, hge, hle, rfl⟩
    have hd := Nat.toNat_digitChar_of_lt_ten (hle.trans_lt hhigh)
    exact ⟨_, by omega, rfl⟩

theorem digit_matches_iff : digit.Matches text ↔ ∃ d ≤ 9, text = [Nat.digitChar d] := by
  have hdigits := @matches_digits_iff text 0 9 (by decide) (by decide)
  simp only [Nat.zero_le, true_and] at hdigits
  exact hdigits

/-- A number and a digit behind it. -/
theorem toDigits_append_digit {n d : Nat} (hn : 0 < n) (hd : d ≤ 9) :
    Nat.toDigits 10 n ++ [Nat.digitChar d] = Nat.toDigits 10 (10 * n + d) := by
  have hd' : d < 10 := Nat.lt_succ_of_le hd
  rw [← Nat.toDigits_of_lt_base hd', Nat.toDigits_append_toDigits (by decide) hn hd']

/-- Numbers of three digits, by the first digit and the greatest second one. -/
theorem matches_hundreds_iff {first high : Nat} (hpos : 0 < first) (hfirst : first ≤ 9)
    (hhigh : high ≤ 9) :
    (Regular.seq (.char (Nat.digitChar first))
      (.seq (.oneOf [(Nat.digitChar 0, Nat.digitChar high)]) digit)).Matches text ↔
      ∃ a ≤ high, ∃ b ≤ 9, text = Nat.toDigits 10 (100 * first + 10 * a + b) := by
  have hdigits {a b : Nat} (ha : a ≤ 9) (hb : b ≤ 9) :
      [Nat.digitChar first] ++ ([Nat.digitChar a] ++ [Nat.digitChar b]) =
        Nat.toDigits 10 (100 * first + 10 * a + b) := by
    rw [← List.append_assoc, ← Nat.toDigits_of_lt_base (Nat.lt_succ_of_le hfirst),
      toDigits_append_digit hpos ha, toDigits_append_digit (by omega) hb]
    congr 1
    omega
  simp only [matches_seq_iff, matches_char_iff, digit_matches_iff,
    matches_digits_iff (Nat.zero_le high) (Nat.lt_succ_of_le hhigh)]
  constructor
  · rintro ⟨_, _, rfl, rfl, _, _, rfl, ⟨a, -, ha, rfl⟩, b, hb, rfl⟩
    exact ⟨a, ha, b, hb, hdigits (ha.trans hhigh) hb⟩
  · rintro ⟨a, ha, b, hb, rfl⟩
    exact ⟨_, _, (hdigits (ha.trans hhigh) hb).symm, rfl, _, _, rfl,
      ⟨a, Nat.zero_le a, ha, rfl⟩, b, hb, rfl⟩

/-- The numbers from 250 on. -/
theorem matches_top_iff : (Regular.seq (.literal "25") (.oneOf [('0', '5')])).Matches text ↔
    ∃ d ≤ 5, text = Nat.toDigits 10 (250 + d) := by
  have hdigit (ys : List Char) : (Regular.oneOf [('0', '5')]).Matches ys ↔ _ :=
    @matches_digits_iff ys 0 5 (by decide) (by decide)
  have hdigits {d : Nat} (hd : d ≤ 5) :
      "25".toList ++ [Nat.digitChar d] = Nat.toDigits 10 (250 + d) :=
    @toDigits_append_digit 25 d (by decide) (by omega)
  simp only [matches_seq_iff, matches_literal_iff, hdigit]
  constructor
  · rintro ⟨_, _, rfl, rfl, d, -, hd, rfl⟩
    exact ⟨d, hd, hdigits hd⟩
  · rintro ⟨d, hd, rfl⟩
    exact ⟨_, _, (hdigits hd).symm, rfl, d, Nat.zero_le d, hd, rfl⟩

/-- The numbers below 100. -/
theorem matches_low_iff : (Regular.seq (.optional (.oneOf [('1', '9')])) digit).Matches text ↔
    ∃ n < 100, text = Nat.toDigits 10 n := by
  have hdigit (xs : List Char) : (Regular.oneOf [('1', '9')]).Matches xs ↔ _ :=
    @matches_digits_iff xs 1 9 (by decide) (by decide)
  have hdigits {a b : Nat} (ha : 1 ≤ a) (ha' : a ≤ 9) (hb : b ≤ 9) :
      [Nat.digitChar a] ++ [Nat.digitChar b] = Nat.toDigits 10 (10 * a + b) := by
    rw [← Nat.toDigits_of_lt_base (Nat.lt_succ_of_le ha'), toDigits_append_digit ha hb]
  simp only [matches_seq_iff, matches_optional_iff, digit_matches_iff, hdigit]
  constructor
  · rintro ⟨_, _, rfl, ⟨a, ha, ha', rfl⟩ | rfl, b, hb, rfl⟩
    · exact ⟨10 * a + b, by omega, hdigits ha ha' hb⟩
    · exact ⟨b, by omega, (Nat.toDigits_of_lt_base (Nat.lt_succ_of_le hb)).symm⟩
  · rintro ⟨n, hn, rfl⟩
    have hlast : n % 10 ≤ 9 := by omega
    rcases Nat.lt_or_ge n 10 with hsmall | hlarge
    · exact ⟨[], _, rfl, .inr rfl, n, by omega, Nat.toDigits_of_lt_base hsmall⟩
    · refine ⟨_, _, ?_, .inl ⟨n / 10, by omega, by omega, rfl⟩, n % 10, hlast, rfl⟩
      rw [hdigits (by omega) (by omega) hlast, Nat.div_add_mod]

/-- **An octet is a number to 255 as it is written in decimal.** -/
theorem octet_matches_iff : octet.Matches text ↔ ∃ n ≤ 255, text = Nat.toDigits 10 n := by
  have hsecond := @matches_hundreds_iff text 2 4 (by decide) (by decide) (by decide)
  have hfirst := @matches_hundreds_iff text 1 9 (by decide) (by decide) (by decide)
  change (Regular.alt _ (.alt _ (.alt _ _))).Matches text ↔ _
  rw [matches_alt_iff, matches_alt_iff, matches_alt_iff]
  refine (or_congr matches_top_iff (or_congr hsecond (or_congr hfirst matches_low_iff))).trans ?_
  constructor
  · rintro (⟨d, hd, rfl⟩ | ⟨a, ha, b, hb, rfl⟩ | ⟨a, ha, b, hb, rfl⟩ | ⟨n, hn, rfl⟩)
    all_goals exact ⟨_, by omega, rfl⟩
  · rintro ⟨n, hn, rfl⟩
    rcases Nat.lt_or_ge n 100 with hlow | hlow
    · exact .inr (.inr (.inr ⟨n, hlow, rfl⟩))
    rcases Nat.lt_or_ge n 200 with hone | hone
    · refine .inr (.inr (.inl ⟨(n - 100) / 10, by omega, n % 10, by omega, ?_⟩))
      congr 1
      omega
    rcases Nat.lt_or_ge n 250 with htwo | htwo
    · refine .inr (.inl ⟨(n - 200) / 10, by omega, n % 10, by omega, ?_⟩)
      congr 1
      omega
    · exact .inl ⟨n - 250, by omega, by rw [Nat.add_sub_cancel' htwo]⟩

end Numbers

/-- Four numbers to 255 as they are written in decimal, with points between them. -/
def IsDotted (text : String) : Prop :=
  ∃ a b c d : Nat, a ≤ 255 ∧ b ≤ 255 ∧ c ≤ 255 ∧ d ≤ 255 ∧
    text = toString a ++ "." ++ toString b ++ "." ++ toString c ++ "." ++ toString d

/-- **The expression for addresses describes four numbers with points between them.** -/
theorem ipv4_matches_iff {text : String} : ipv4.Matches text.toList ↔ IsDotted text := by
  have htext (a b c d : Nat) :
      (toString a ++ "." ++ toString b ++ "." ++ toString c ++ "." ++ toString d).toList =
        Nat.toDigits 10 a ++ '.' :: (Nat.toDigits 10 b ++ '.' ::
          (Nat.toDigits 10 c ++ '.' :: Nat.toDigits 10 d)) := by
    simp [Nat.toList_repr]
  change (Regular.seq octet (.seq (.char '.') (.seq octet (.seq (.char '.')
    (.seq octet (.seq (.char '.') octet)))))).Matches _ ↔ _
  simp only [matches_seq_char_iff, octet_matches_iff]
  constructor
  · rintro ⟨_, _, heq, ⟨a, ha, rfl⟩, _, _, rfl, ⟨b, hb, rfl⟩, _, _, rfl, ⟨c, hc, rfl⟩, d, hd, rfl⟩
    exact ⟨a, b, c, d, ha, hb, hc, hd, String.toList_inj.mp (heq.trans (htext a b c d).symm)⟩
  · rintro ⟨a, b, c, d, ha, hb, hc, hd, rfl⟩
    exact ⟨_, _, htext a b c d, ⟨a, ha, rfl⟩, _, _, rfl, ⟨b, hb, rfl⟩, _, _, rfl, ⟨c, hc, rfl⟩,
      d, hd, rfl⟩

section Names

/-- Letters, digits and hyphens. -/
def IsLabelCharacter (c : Char) : Prop := c.isAlphanum ∨ c = '-'

/-- Letters, digits, hyphens, points and colons, with at least one point or colon among them. -/
def IsName (text : List Char) : Prop :=
  (∀ c ∈ text, IsLabelCharacter c ∨ c = '.' ∨ c = ':') ∧ ('.' ∈ text ∨ ':' ∈ text)

/-- A name, with at most one scheme of letters before it. -/
def IsSchemedName (text : List Char) : Prop :=
  ∃ name, IsName name ∧ (text = name ∨
    ∃ scheme, scheme ≠ [] ∧ (∀ c ∈ scheme, c.isAlpha) ∧ text = scheme ++ "://".toList ++ name)

variable {c : Char}

theorem isAlpha_iff : c.isAlpha = true ↔ 'A' ≤ c ∧ c ≤ 'Z' ∨ 'a' ≤ c ∧ c ≤ 'z' := by
  change (decide ('A'.val ≤ c.val ∧ c.val ≤ 'Z'.val) ||
    decide ('a'.val ≤ c.val) && decide (c.val ≤ 'z'.val)) = true ↔ _
  simp only [Bool.or_eq_true, Bool.and_eq_true, decide_eq_true_eq]
  rfl

theorem inRanges_letter_iff : inRanges [('a', 'z'), ('A', 'Z')] c = true ↔ c.isAlpha = true := by
  simp only [inRanges_cons_iff, inRanges_nil, Bool.false_eq_true, or_false, isAlpha_iff]
  exact or_comm

theorem inRanges_label_iff :
    inRanges [('A', 'Z'), ('a', 'z'), ('0', '9'), ('-', '-')] c = true ↔ IsLabelCharacter c := by
  simp only [inRanges_cons_iff, inRanges_nil, Bool.false_eq_true, or_false, between_self_iff,
    IsLabelCharacter, Char.isAlphanum, isAlpha_iff, Char.isDigit, Bool.or_eq_true,
    Bool.and_eq_true, decide_eq_true_eq, or_assoc]
  rfl

theorem letters_matches_iff :
    (Regular.plus letter).Matches text ↔ text ≠ [] ∧ ∀ c ∈ text, c.isAlpha := by
  simp only [letter, matches_plus_oneOf_iff, inRanges_letter_iff]

theorem labelCharacters_matches_iff :
    (Regular.star labelCharacter).Matches text ↔ ∀ c ∈ text, IsLabelCharacter c := by
  simp only [labelCharacter, matches_star_oneOf_iff, inRanges_label_iff]

/-- A point or colon begins what may stand behind it. -/
theorem labels_matches_separator {rest : List Char} (hc : c = '.' ∨ c = ':')
    (hrest : ∀ d ∈ rest, IsLabelCharacter d) : labels.Matches (c :: rest) := by
  have hseparator : (Regular.alt (.char '.')
      (.seq (.char ':') (.optional (.char ':')))).Matches [c] := by
    rcases hc with rfl | rfl
    · exact .left (matches_char_iff.mpr rfl)
    · exact .right (.seq (matches_char_iff.mpr rfl) (matches_optional_iff.mpr (.inr rfl)))
  have hlabels : (Regular.seq labelCharacter.star (.seq _ labelCharacter.star)).Matches
      ([] ++ ([c] ++ rest)) :=
    .seq .stop (.seq hseparator (labelCharacters_matches_iff.mpr hrest))
  exact hlabels

/-- A character more before the labels. -/
theorem labels_matches_cons {rest : List Char} (hc : IsLabelCharacter c)
    (hrest : labels.Matches rest) : labels.Matches (c :: rest) := by
  change (Regular.seq labelCharacter.star _).Matches rest at hrest
  obtain ⟨xs, ys, rfl, hxs, hys⟩ := matches_seq_iff.mp hrest
  have hfirst : labelCharacter.star.Matches (c :: xs) :=
    labelCharacters_matches_iff.mpr
      (List.forall_mem_cons.mpr ⟨hc, labelCharacters_matches_iff.mp hxs⟩)
  exact .seq hfirst hys

/-- Labels are found in a name from its end on: the last point or colon takes all that is behind
it, and every other begins labels of its own. -/
theorem plus_labels_of_isName (h : IsName text) : (Regular.plus labels).Matches text := by
  obtain ⟨hall, hseparator⟩ := h
  induction text with
  | nil => simp at hseparator
  | cons c rest ih =>
    obtain ⟨hc, hrest⟩ := List.forall_mem_cons.mp hall
    by_cases hlater : '.' ∈ rest ∨ ':' ∈ rest
    · have hplus := ih hrest hlater
      obtain ⟨xs, ys, rfl, hxs, hys⟩ := matches_seq_iff.mp hplus
      rcases hc with hc | hc
      · exact .seq (labels_matches_cons hc hxs) hys
      · have hlabel : labels.Matches [c] := labels_matches_separator hc (by simp)
        exact .seq hlabel (.again hxs hys)
    · rw [not_or] at hlater
      have hbehind : ∀ d ∈ rest, IsLabelCharacter d := by
        intro d hd
        refine (hrest d hd).resolve_right ?_
        rintro (rfl | rfl)
        · exact hlater.1 hd
        · exact hlater.2 hd
      have hc' : c = '.' ∨ c = ':' := by simpa [hlater, eq_comm] using hseparator
      have hplus : (Regular.plus labels).Matches ((c :: rest) ++ []) :=
        .seq (labels_matches_separator hc' hbehind) .stop
      rwa [List.append_nil] at hplus

theorem separator_mem_of_labels (h : labels.Matches text) : '.' ∈ text ∨ ':' ∈ text := by
  change (Regular.seq _ (.seq (.alt _ (.seq _ _)) _)).Matches text at h
  simp only [matches_seq_iff, matches_alt_iff, matches_char_iff] at h
  obtain ⟨xs, _, rfl, -, _, ys, rfl, rfl | ⟨_, zs, rfl, rfl, -⟩, -⟩ := h <;> simp

/-- The names, with or without a port, are what labels describe. -/
theorem ported_matches_iff :
    (Regular.seq (.plus labels) (.optional (.seq (.char ':') (.plus digit)))).Matches text ↔
      IsName text := by
  constructor
  · intro h
    refine ⟨fun c hc => ?_, ?_⟩
    · obtain ⟨range, hrange, hin⟩ := List.any_eq_true.mp (h.inRanges_mentioned c hc)
      have hmentioned : ∀ range ∈ mentioned
          (.seq (.plus labels) (.optional (.seq (.char ':') (.plus digit)))),
          range ∈ [('A', 'Z'), ('a', 'z'), ('0', '9'), ('-', '-')] ++ [('.', '.'), (':', ':')] := by
        decide
      have hc' := inRanges_append.mp (List.any_eq_true.mpr ⟨range, hmentioned range hrange, hin⟩)
      rw [inRanges_label_iff] at hc'
      simpa [inRanges_cons_iff, inRanges_nil, between_self_iff] using hc'
    · obtain ⟨_, ys, rfl, hplus, -⟩ := matches_seq_iff.mp h
      obtain ⟨xs, zs, rfl, hxs, -⟩ := matches_seq_iff.mp hplus
      have hbefore {d : Char} (hd : d ∈ xs) : d ∈ xs ++ zs ++ ys :=
        List.mem_append_left ys (List.mem_append_left zs hd)
      exact (separator_mem_of_labels hxs).imp hbefore hbefore
  · intro h
    rw [matches_seq_iff]
    exact ⟨text, [], (List.append_nil text).symm, plus_labels_of_isName h,
      matches_optional_iff.mpr (.inr rfl)⟩

/-- **The expression for domain names describes names behind at most one scheme.** -/
theorem domainName_matches_iff : domainName.Matches text ↔ IsSchemedName text := by
  change (Regular.seq (.optional (.seq (.plus letter) (.literal "://"))) (.seq (.plus labels)
    (.optional (.seq (.char ':') (.plus digit))))).Matches _ ↔ _
  rw [matches_seq_iff]
  simp only [matches_optional_iff, ported_matches_iff]
  simp only [matches_seq_iff, letters_matches_iff, matches_literal_iff]
  constructor
  · rintro ⟨_, name, rfl, ⟨scheme, _, rfl, ⟨hne, hletters⟩, rfl⟩ | rfl, hname⟩
    · exact ⟨name, hname, .inr ⟨scheme, hne, hletters, rfl⟩⟩
    · exact ⟨name, hname, .inl rfl⟩
  · rintro ⟨name, hname, rfl | ⟨scheme, hne, hletters, rfl⟩⟩
    · exact ⟨[], text, rfl, .inr rfl, hname⟩
    · exact ⟨_, name, rfl, .inl ⟨scheme, _, rfl, ⟨hne, hletters⟩, rfl⟩, hname⟩

end Names
end DeviceSchema.Address
namespace DeviceSchema.Element
open Address
variable {e : Element} {type : ValueType} {text : String}

/-- The element with another default or without one. -/
def withDefault (e : Element) (default : Option String) : Element := { e with default }

/-- What is checked of an element whose type is known. -/
theorem check_of_type (htype : e.type = some type) : e.check = .ok () ↔
    e.checkBoundsAllowed type = .ok () ∧ e.checkMaxGiven type = .ok () ∧
      e.rule.check = .ok () ∧ e.checkValue type = .ok () := by
  simp only [check, htype, except_seq_ok]

/-- The rule of the type is all that a default can break. -/
theorem check_withDefault_iff (htype : e.type = some type)
    (hvalid : (e.withDefault none).check = .ok ()) {default : Option String} :
    (e.withDefault default).check = .ok () ↔ (e.withDefault default).Suits type := by
  have htype' (default : Option String) : (e.withDefault default).type = some type := htype
  obtain ⟨hbounds, hmax, hrule, -⟩ := (check_of_type (htype' none)).mp hvalid
  rw [check_of_type (htype' default), checkValue_iff]
  exact ⟨fun h => h.2.2.2, fun h => ⟨hbounds, hmax, hrule, h⟩⟩

/-- Bounds that are in order without a default are in order with one that is admitted whatever
they are. -/
theorem boundedIn_withDefault_iff {range : IntegerRange} {Admitted : String → Prop}
    (hvalid : (e.withDefault none).BoundedIn range fun _ _ d => Admitted d) :
    ((e.withDefault (some text)).BoundedIn range fun _ _ d => Admitted d) ↔ Admitted text := by
  obtain ⟨lo, hi, hlo, hhi, hle, -⟩ := hvalid
  constructor
  · rintro ⟨_, _, -, -, -, hadmitted⟩
    exact hadmitted text rfl
  · intro h
    refine ⟨lo, hi, hlo, hhi, hle, ?_⟩
    rintro _ ⟨⟩
    exact h

/-- **An address decides alone whether an element passes that passes without a default.**  An IPv4
address has to be four numbers to 255 with points between them, and a domain name a name behind at
most one scheme. -/
theorem check_address_iff (e : Element) (text : String)
    (hvalid : (e.withDefault none).check = .ok ()) :
    (e.type = some .ipv4 →
      ((e.withDefault (some text)).check = .ok () ↔ IsDotted text)) ∧
    (e.type = some .fqdnv4 ∨ e.type = some .fqdnv6 →
      ((e.withDefault (some text)).check = .ok () ↔ IsSchemedName text.toList)) := by
  constructor
  · intro htype
    rw [check_withDefault_iff htype hvalid, ← ipv4_matches_iff]
    simp [Suits, withDefault]
  · rintro (htype | htype)
    all_goals
      have hbounded := (check_withDefault_iff htype hvalid).mp hvalid
      rw [check_withDefault_iff htype hvalid, ← domainName_matches_iff]
      exact boundedIn_withDefault_iff hbounded

/-- An element of a type with nothing else to say. -/
def bare (type : ValueType) : Element where
  info := ⟨"e", "E", none, some .readOnly, none⟩
  type := some type

theorem check_address_iff_bare :
    ((bare .ipv4).withDefault none).check = .ok () ∧
    ((bare .ipv4).withDefault (some "192.168.0.255")).check = .ok () ∧
    ((bare .fqdnv6).withDefault none).check = .ok () ∧
    ((bare .fqdnv6).withDefault (some "http://a.b:80")).check = .ok () := by
  have hipv4 : ((bare .ipv4).withDefault none).check = .ok () := by decide
  have hname : ((bare .fqdnv6).withDefault none).check = .ok () := by decide
  refine ⟨hipv4, ?_, hname, ?_⟩
  · exact ((check_address_iff _ _ hipv4).1 rfl).mpr
      ⟨192, 168, 0, 255, by decide, by decide, by decide, by decide, by decide⟩
  · refine ((check_address_iff _ _ hname).2 (.inr rfl)).mpr ⟨"a.b:80".toList, ⟨?_, by decide⟩, .inr ?_⟩
    · simp [IsLabelCharacter]
    · exact ⟨"http".toList, by decide, List.all_eq_true.mp (by decide), by decide⟩

end DeviceSchema.Element
