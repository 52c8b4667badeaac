import DeviceSchema.Proofs.Text.Literal
import DeviceSchema.Proofs.Tree.Conformity

/-! # What initializers mean in C

A default that passes the check becomes an initializer as it is written, between quotes for the
types that have them.  So it is read twice, by the rules of a description and by those of C.
`Element.initializer?_means` says for which defaults the two readings agree: integers have to be
numerals that are `ReadAlike`, and quoted texts have to be of plain characters.  The check asks
for neither, except that no other character is part of an address
(`Element.initializer?_differs_small`).
-/
namespace DeviceSchema
open Text

section Integers
variable {text : List Char} {value : Int}

/-- The text is an integer for a description and for C: a decimal numeral that no zero makes
octal, or a hexadecimal one without a sign. -/
inductive ReadAlike : List Char → Int → Prop
  | bare {digits : List Char} {n : Nat} (hn : IsNumeral 10 digits n)
      (hzero : digits.head? ≠ some '0' ∨ n < 8) : ReadAlike digits n
  | plus {digits : List Char} {n : Nat} (hn : IsNumeral 10 digits n)
      (hzero : digits.head? ≠ some '0' ∨ n < 8) : ReadAlike ('+' :: digits) n
  | minus {digits : List Char} {n : Nat} (hn : IsNumeral 10 digits n)
      (hzero : digits.head? ≠ some '0' ∨ n < 8) : ReadAlike ('-' :: digits) (-n)
  | hexadecimal {digits : List Char} {n : Nat} (hn : IsNumeral 16 digits n) :
      ReadAlike ('0' :: 'x' :: digits) n

theorem ReadAlike.isExpression (h : ReadAlike text value) : IsExpression text value := by
  cases h with
  | bare hn hzero => exact .bare ((isConstant_numeral_iff hn).mpr hzero)
  | plus hn hzero => exact .plus ((isConstant_numeral_iff hn).mpr hzero)
  | minus hn hzero =>
    exact .minus ((isConstant_numeral_iff hn).mpr hzero) (hzero.imp_right fun h => by omega)
  | hexadecimal hn => exact .bare (.hexadecimal (.inl rfl) hn)

theorem head?_ne_sign {radix n : Nat} {sign : Char} (h : IsNumeral radix text n)
    (hsign : digitWeight sign = none) : text.head? ≠ some sign := by
  intro hhead
  obtain ⟨rest, rfl⟩ := List.head?_eq_some_iff.mp hhead
  exact not_isNumeral_sign hsign h

/-- Behind `0x` C has digits only. -/
theorem isExpression_hexadecimal_iff {digits : List Char} :
    IsExpression ('0' :: 'x' :: digits) value ↔ ∃ n : Nat, value = n ∧ IsNumeral 16 digits n := by
  rw [isExpression_bare_iff (by simp) (by simp)]
  refine exists_congr fun n => and_congr_right fun _ => ?_
  constructor
  · rintro (⟨hc, -⟩ | hn | ⟨-, hn⟩)
    · exact absurd rfl hc
    · exact absurd (hn.digit?_isSome (List.mem_cons_of_mem _ List.mem_cons_self)) (by decide)
    · exact hn
  · exact .hexadecimal (.inl rfl)

/-- **An integer of a description has its value in C if and only if it is read alike.** -/
theorem IsInteger.isExpression_iff (h : IsInteger text value) :
    IsExpression text value ↔ ReadAlike text value := by
  refine ⟨fun hexpr => ?_, ReadAlike.isExpression⟩
  rcases h with ((hn | hn) | hn) | h
  · rw [isExpression_bare_iff (head?_ne_sign hn rfl) (head?_ne_sign hn rfl)] at hexpr
    obtain ⟨m, hm, hconstant⟩ := hexpr
    obtain rfl := Int.ofNat.inj hm
    exact .bare hn ((isConstant_numeral_iff hn).mp hconstant)
  · obtain ⟨m, hm, hconstant⟩ := isExpression_plus_iff.mp hexpr
    obtain rfl := Int.ofNat.inj hm
    exact .plus hn ((isConstant_numeral_iff hn).mp hconstant)
  · obtain ⟨m, hm, hconstant, -⟩ := isExpression_minus_iff.mp hexpr
    obtain rfl := Int.ofNat.inj (Int.neg_inj.mp hm)
    exact .minus hn ((isConstant_numeral_iff hn).mp hconstant)
  · obtain ⟨n, rfl, hn⟩ := isExpression_hexadecimal_iff.mp hexpr
    exact .hexadecimal hn

end Integers

section Addresses
variable {text : List Char}

/-- An expression that does not mention quotes, backslashes and line ends describes plain
characters. -/
theorem plain_of_matches {r : Regular} (h : r.Matches text)
    (hr : ['"', '\\', '\n'].all (!Regular.inRanges r.mentioned ·) = true) :
    ∀ c ∈ text, IsPlain c := by
  intro c hc
  by_contra hplain
  have hspecial : c ∈ ['"', '\\', '\n'] := by
    simpa [IsPlain, Classical.or_iff_not_imp_left] using hplain
  have hr : Regular.inRanges r.mentioned c = false := by
    simpa using List.all_eq_true.mp hr c hspecial
  exact Bool.false_ne_true (hr.symm.trans (h.inRanges_mentioned c hc))

end Addresses

namespace ValueType

/-- The types of integers, and their ranges. -/
def range? : ValueType → Option IntegerRange
  | int32 => some .signed32
  | uint32 | hex32 | prefixedHex32 => some .unsigned32
  | _ => none

/-- The types whose defaults are addresses. -/
def addresses : List ValueType := [ipv4, fqdnv4, fqdnv6]

/-- The types whose defaults become string literals. -/
def quoted : List ValueType := [string, multilineString, password, refEnum] ++ addresses

end ValueType

namespace Element
variable {e : Element} {type : ValueType} {d : String}

theorem range?_inWords {range : IntegerRange} (hrange : type.range? = some range) :
    range.InWords := by
  cases type <;> cases hrange <;> first | exact signed32_inWords | exact unsigned32_inWords

theorem suits_integer {range : IntegerRange} (hrange : type.range? = some range)
    (h : e.Suits type) (hdefault : e.default = some d) : ∃ value, range.Reads d value := by
  have hbounded : e.BoundedIn range (Within range.Reads) := by
    cases type <;> first | cases hrange; exact h | cases hrange
  obtain ⟨lo, hi, -, -, -, hd⟩ := hbounded
  obtain ⟨value, hvalue, -⟩ := hd d hdefault
  exact ⟨value, hvalue⟩

theorem suits_address (haddress : type ∈ ValueType.addresses) (h : e.Suits type)
    (hdefault : e.default = some d) : ∀ c ∈ d.toList, IsPlain c := by
  have hname (h : e.BoundedIn .unsigned32 fun _ _ d => Address.domainName.Matches d.toList) :
      ∀ c ∈ d.toList, IsPlain c := by
    obtain ⟨lo, hi, -, -, -, hd⟩ := h
    exact plain_of_matches (hd d hdefault) (by decide)
  simp only [ValueType.addresses, List.mem_cons, List.not_mem_nil, or_false] at haddress
  rcases haddress with rfl | rfl | rfl
  · exact plain_of_matches (h d hdefault) (by decide)
  · exact hname h
  · exact hname h

theorem initializer?_integer {range : IntegerRange} (hrange : type.range? = some range)
    (htype : e.type = some type) (hdefault : e.default = some d) : e.initializer? = some d := by
  unfold initializer?
  rw [hdefault, htype]
  cases type <;> first | rfl | cases hrange

theorem initializer?_quoted (hquoted : type ∈ ValueType.quoted) (htype : e.type = some type)
    (hdefault : e.default = some d) : e.initializer? = some ("\"" ++ d ++ "\"") := by
  unfold initializer?
  rw [hdefault, htype]
  cases type <;> first | rfl | exact absurd hquoted (by decide)

theorem isStringLiteral_iff :
    IsStringLiteral ("\"" ++ d ++ "\"").toList d.toList ↔ ∀ c ∈ d.toList, IsPlain c := by
  rw [← spells_self_iff, ← isStringLiteral_quoted_iff]
  simp

/-- **The initializer of a default that passes the check means the default in C if and only if
it is read alike there.**  A default of an integer type is an integer of the range of its type,
and its text is the initializer.  The other defaults stand between quotes, which is right for
every address, and for the texts that have plain characters only. -/
theorem initializer?_means (htype : e.type = some type) (hdefault : e.default = some d)
    (hcheck : e.check = .ok ()) :
    (∀ range, type.range? = some range → e.initializer? = some d ∧
      ∃ value, integerIn range .default d = .ok value ∧
        (IsExpression d.toList value ↔ ReadAlike d.toList value)) ∧
    (type ∈ ValueType.quoted → e.initializer? = some ("\"" ++ d ++ "\"") ∧
      (IsStringLiteral ("\"" ++ d ++ "\"").toList d.toList ↔ ∀ c ∈ d.toList, IsPlain c)) ∧
    (type ∈ ValueType.addresses → IsStringLiteral ("\"" ++ d ++ "\"").toList d.toList) := by
  obtain ⟨type', htype', hconforms⟩ := (check_iff e).mp hcheck
  obtain rfl := Option.some.inj (htype.symm.trans htype')
  refine ⟨fun range hrange => ⟨initializer?_integer hrange htype hdefault, ?_⟩, ?_, ?_⟩
  · obtain ⟨value, hvalue⟩ := suits_integer hrange hconforms.value hdefault
    exact ⟨value, (integerIn_reads_iff (range?_inWords hrange)).mpr hvalue,
      hvalue.1.isExpression_iff⟩
  · exact fun hquoted => ⟨initializer?_quoted hquoted htype hdefault, isStringLiteral_iff⟩
  · exact fun haddress => isStringLiteral_iff.mpr
      (suits_address haddress hconforms.value hdefault)

/-- An element with a type and a default. -/
def defaulted (type : ValueType) (d : String) : Element where
  info := ⟨"e", "E", none, none, none⟩
  type := some type
  default := some d

/-- A text of at most ten characters with a default. -/
def defaultedText (d : String) : Element := { defaulted .string d with max := some "10" }

theorem initializer?_means_small :
    (integerIn .signed32 .default "-7" = .ok (-7) ∧
      (defaulted .int32 "-7").initializer? = some "-7" ∧ IsExpression "-7".toList (-7)) ∧
    ((defaulted .ipv4 "0.0.0.0").initializer? = some "\"0.0.0.0\"" ∧
      IsStringLiteral "\"0.0.0.0\"".toList "0.0.0.0".toList) ∧
    ((defaultedText "a b").initializer? = some "\"a b\"" ∧
      IsStringLiteral "\"a b\"".toList "a b".toList) ∧
    (defaultedText "a\"b").initializer? = some "\"a\"b\"" ∧
      ¬ IsStringLiteral "\"a\"b\"".toList "a\"b".toList := by
  have hseven : ReadAlike "-7".toList (-7) := by
    refine @ReadAlike.minus ['7'] 7 ?_ (.inr (by decide))
    exact numeral?_iff.mp (by decide)
  have hinteger := (@initializer?_means (defaulted .int32 "-7") _ _ rfl rfl (by decide)).1 _ rfl
  have haddress := @initializer?_means (defaulted .ipv4 "0.0.0.0") _ _ rfl rfl (by decide +kernel)
  obtain ⟨hinitializer, value, hvalue, hiff⟩ := hinteger
  have hread : integerIn .signed32 .default "-7" = .ok (-7) := by decide
  obtain rfl : value = -7 := Except.ok.inj (hvalue.symm.trans hread)
  have hplain := (@initializer?_means (defaultedText "a b") _ _ rfl rfl (by decide)).2.1 (by decide)
  have hquote := (@initializer?_means (defaultedText "a\"b") _ _ rfl rfl (by decide)).2.1 (by decide)
  have hchars : ∀ c ∈ "a b".toList, c ≠ '"' ∧ c ≠ '\\' ∧ c ≠ '\n' := by simp
  refine ⟨⟨hread, hinitializer, hiff.mpr hseven⟩,
    ⟨(haddress.2.1 (by decide)).1, haddress.2.2 (by decide)⟩,
    ⟨hplain.1, hplain.2.mpr hchars⟩, hquote.1, fun hliteral => ?_⟩
  exact (hquote.2.mp hliteral '"' (by decide)).1 rfl

/-- **Defaults that pass and mean something else in C**: a zero makes the ten an eight, and a
quote ends the literal. -/
theorem initializer?_differs_small :
    ((defaulted .int32 "010").check = .ok () ∧
      integerIn .signed32 .default "010" = .ok 10 ∧
      (defaulted .int32 "010").initializer? = some "010" ∧
      IsExpression "010".toList 8 ∧ ¬ IsExpression "010".toList 10) ∧
    ((defaultedText "a\"b").check = .ok () ∧
      (defaultedText "a\"b").initializer? = some "\"a\"b\"" ∧
      ¬ IsStringLiteral "\"a\"b\"".toList "a\"b".toList) := by
  have hten : IsNumeral 10 "010".toList 10 := numeral?_iff.mp (by decide)
  have height : IsNumeral 8 "010".toList 8 := numeral?_iff.mp (by decide)
  refine ⟨⟨by decide, by decide, rfl, .bare (.octal height), fun h => ?_⟩, by decide, rfl, ?_⟩
  · rw [isExpression_bare_iff (by decide) (by decide)] at h
    obtain ⟨n, hn, hconstant⟩ := h
    obtain rfl : n = 10 := (Int.ofNat.inj hn).symm
    rcases (isConstant_numeral_iff hten).mp hconstant with hzero | hless
    · exact hzero rfl
    · exact absurd hless (by decide)
  · intro h
    exact ((@isStringLiteral_iff "a\"b").mp h '"' (by decide)).1 rfl

end Element
end DeviceSchema
