import DeviceSchema.Proofs.Arithmetic.Grammar
import DeviceSchema.Proofs.Computation

/-! # Evaluation is exact

The grammar has a kind of phrase for each precedence: sums for the operators that bind least,
products for the others, and factors for what binds stronger than any operator (`phraseAt`).  An
evaluation that climbs from a precedence reads a phrase of that kind, as far as it goes: what
follows binds less (`BindsBelow`).

An evaluation that gives a value has found a tree of the grammar that is computable and has that
value (`sound`).  What carries the climb is that whatever operator comes next, all that was read
may stand to its left (`Joinable`).  The other way round, a computable tree is read with its value
as long as the depth allows it (`complete`), and the depth that evaluation starts with always
does: each lexeme needs at most two steps.

Together, **a text evaluates to `v` exactly when it spells an expression that is computable
and has the value `v`**, which fits in 32 bits; every other text is a bad expression
(`evaluate_iff_denotes`).
-/
namespace DeviceSchema.Arithmetic

/-- The text spells a computable expression whose value is `v`, which fits in 32 bits. -/
def Denotes (text : String) (v : Int) : Prop :=
  ∃ input e, Spells text.toList input ∧ Derives .sum input e ∧ e.Computable ∧ e.value = v ∧
    -2 ^ 31 ≤ v ∧ v < 2 ^ 31

section Words

theorem fitsSigned_word {value : Int} : Text.fitsSigned 64 value = true ↔ IsWord value := by
  simp [Text.fitsSigned, IsWord]

theorem checked_ok {value v : Int} : checked value = .ok v ↔ IsWord value ∧ v = value := by
  unfold checked
  split
  · rename_i h
    simp [fitsSigned_word.mp h, eq_comm]
  · rename_i h
    simp [mt fitsSigned_word.mpr h]

/-- A quotient of words is a word, but for that of the least word by minus one. -/
theorem isWord_tdiv {left right : Int} (hleft : IsWord left) (hright : right ≠ 0) :
    IsWord (left.tdiv right) ↔ ¬ (left = -2 ^ 63 ∧ right = -1) := by
  obtain ⟨hlow, hhigh⟩ := hleft
  constructor
  · rintro ⟨-, hquotient⟩ ⟨rfl, rfl⟩
    simp at hquotient
  · intro h
    have hbound : (left.tdiv right).natAbs ≤ left.natAbs := by
      rw [Int.natAbs_tdiv]
      exact Nat.div_le_self _ _
    unfold IsWord
    by_cases hleast : left = -2 ^ 63
    · -- Only a divisor of one keeps the absolute value of the least word.
      by_cases hone : right = 1
      · subst hone
        rw [Int.tdiv_one]
        omega
      · have hhalf : (left.tdiv right).natAbs ≤ left.natAbs / 2 := by
          rw [Int.natAbs_tdiv]
          exact Nat.div_le_div_left (by omega) (by decide)
        omega
    · omega

theorem isWord_tmod {left right : Int} (hleft : IsWord left) : IsWord (left.tmod right) := by
  obtain ⟨hlow, hhigh⟩ := hleft
  have hbound : (left.tmod right).natAbs ≤ left.natAbs := by
    rw [Int.natAbs_tmod]
    exact Nat.mod_le _ _
  have hsign : left ≤ 0 → left.tmod right ≤ 0 := by
    intro h
    have hneg := Int.tmod_nonneg right (Int.neg_nonneg.mpr h)
    rw [Int.neg_tmod] at hneg
    omega
  unfold IsWord
  omega

end Words

section Precedence

/-- The phrases that operators of a precedence join. -/
def phraseAt : Nat → Phrase
  | 1 => .sum
  | 2 => .product
  | _ => .factor

/-- No operator that follows binds as strongly as `least`. -/
def BindsBelow (least : Nat) (rest : List Lexeme) : Prop :=
  ∀ lexeme ∈ rest.head?, ∀ precedence, lexeme.precedence? = some precedence → precedence < least

/-- The lexeme is an operator between phrases of precedence `precedence`, with those that bind
stronger to its right. -/
structure Joins (precedence : Nat) (lexeme : Lexeme) (operator : Operator) : Prop where
  apply : ∀ {left right v : Int}, IsWord left → (apply lexeme left right = .ok v ↔
    operator.Applies left right ∧ IsWord (operator.result left right) ∧
      v = operator.result left right)
  derives : ∀ {input left input' right}, Derives (phraseAt precedence) input left →
    Derives (phraseAt (precedence + 1)) input' right →
    Derives (phraseAt precedence) (input ++ lexeme :: input') (.combined operator left right)

variable {precedence least : Nat} {lexeme : Lexeme} {input rest : List Lexeme} {e : Expression}

theorem precedence_bounds (h : lexeme.precedence? = some precedence) :
    1 ≤ precedence ∧ precedence ≤ 2 := by
  cases lexeme <;> cases h <;> decide

theorem BindsBelow.mono (h : BindsBelow least rest) {greater : Nat} (hle : least ≤ greater) :
    BindsBelow greater rest :=
  fun lexeme hlexeme p hp => Nat.lt_of_lt_of_le (h lexeme hlexeme p hp) hle

/-- Nothing binds as strongly as parentheses. -/
theorem bindsBelow_three (rest : List Lexeme) : BindsBelow 3 rest :=
  fun _ _ _ hp => Nat.lt_succ_of_le (precedence_bounds hp).2

theorem bindsBelow_nil : BindsBelow least [] := nofun

theorem bindsBelow_closing : BindsBelow least (.closing :: rest) := by
  rintro lexeme hlexeme p hp
  cases hlexeme
  cases hp

/-- A phrase is also one for the operators that bind less. -/
theorem Derives.atLower (h : Derives (phraseAt precedence) input e) (hpos : 1 ≤ least)
    (hle : least ≤ precedence) (hbound : precedence ≤ 3) : Derives (phraseAt least) input e := by
  obtain rfl | rfl | rfl : precedence = 1 ∨ precedence = 2 ∨ precedence = 3 := by omega
  · obtain rfl : least = 1 := by omega
    exact h
  · obtain rfl | rfl : least = 1 ∨ least = 2 := by omega
    · exact .product h
    · exact h
  · obtain rfl | rfl | rfl : least = 1 ∨ least = 2 ∨ least = 3 := by omega
    · exact .product (.factor h)
    · exact .factor h
    · exact h

theorem joins_additive {operator : Operator} (h : additive? lexeme = some operator) :
    Joins 1 lexeme operator where
  apply := by
    intro left right v _
    unfold additive? at h
    split at h <;> cases h <;>
      simp [Arithmetic.apply, Operator.Applies, Operator.result, checked_ok]
  derives hleft hright := .additive hleft h hright

theorem joins_multiplicative {operator : Operator} (h : multiplicative? lexeme = some operator) :
    Joins 2 lexeme operator where
  apply := by
    intro left right v hleft
    unfold multiplicative? at h
    split at h <;> cases h
    · simp [Arithmetic.apply, Operator.Applies, Operator.result, checked_ok]
    · by_cases hzero : right = 0 <;>
        simp [Arithmetic.apply, Operator.Applies, Operator.result, checked_ok, hzero]
    · by_cases hzero : right = 0
      · simp [Arithmetic.apply, Operator.Applies, hzero]
      · -- The remainder is a word whenever it is asked for.
        have hmap : (checked (left.tdiv right)).map (fun _ => left.tmod right) = .ok v ↔
            IsWord (left.tdiv right) ∧ v = left.tmod right := by
          by_cases hword : IsWord (left.tdiv right)
          · rw [checked_ok.mpr ⟨hword, rfl⟩]
            simp [hword, Except.map, eq_comm]
          · cases hchecked : checked (left.tdiv right) with
            | ok value => exact absurd (checked_ok.mp hchecked).1 hword
            | error reason => simp [hword, Except.map]
        rw [Arithmetic.apply, if_neg hzero, hmap, isWord_tdiv hleft hzero]
        simp [Operator.Applies, Operator.result, isWord_tmod hleft, hzero]
  derives hleft hright := .multiplicative hleft h hright

/-- Every lexeme with a precedence is an operator of it. -/
theorem exists_joins (h : lexeme.precedence? = some precedence) :
    ∃ operator, Joins precedence lexeme operator := by
  cases lexeme <;> cases h
  · exact ⟨.add, joins_additive rfl⟩
  · exact ⟨.subtract, joins_additive rfl⟩
  · exact ⟨.multiply, joins_multiplicative rfl⟩
  · exact ⟨.divide, joins_multiplicative rfl⟩
  · exact ⟨.remainder, joins_multiplicative rfl⟩

theorem precedence_of_additive? {operator : Operator} (h : additive? lexeme = some operator) :
    lexeme.precedence? = some 1 := by
  cases lexeme <;> first | rfl | cases h

theorem precedence_of_multiplicative? {operator : Operator}
    (h : multiplicative? lexeme = some operator) : lexeme.precedence? = some 2 := by
  cases lexeme <;> first | rfl | cases h

end Precedence

namespace Evaluator

section Moves
variable {s : Evaluator} {lexeme : Lexeme} {rest : List Lexeme}

/-- The lexemes that are left. -/
def ahead (s : Evaluator) : List Lexeme := s.lexemes.toList.drop s.position

/-- The evaluator behind some more lexemes. -/
def advance (s : Evaluator) (count : Nat) : Evaluator :=
  { s with position := s.position + count }

theorem peek_eq (s : Evaluator) : peek s = .ok s.ahead.head? s := by
  rw [peek, ahead, List.head?_drop, Array.getElem?_toList]

theorem skip_eq (s : Evaluator) : skip s = .ok () (s.advance 1) := rfl

theorem next_eq (s : Evaluator) : next s = .ok s.ahead.head? (s.advance 1) :=
  bind_at (peek_eq s)

theorem ahead_advance (s : Evaluator) (count : Nat) :
    (s.advance count).ahead = s.ahead.drop count := by
  rw [ahead, ahead, advance, List.drop_drop]

theorem ahead_advance_append {used : List Lexeme} (h : s.ahead = used ++ rest) :
    (s.advance used.length).ahead = rest := by
  rw [ahead_advance, h, List.drop_left]

theorem ahead_advance_one (h : s.ahead = lexeme :: rest) : (s.advance 1).ahead = rest := by
  rw [ahead_advance, h, List.drop_one, List.tail_cons]

@[simp] theorem advance_advance (s : Evaluator) (m n : Nat) :
    (s.advance m).advance n = s.advance (m + n) := by
  simp [advance, Nat.add_assoc]

/-- Nothing is left exactly when the position is not inside. -/
theorem ahead_eq_nil : s.ahead = [] ↔ ¬ s.position < s.lexemes.size := by
  rw [ahead, List.drop_eq_nil_iff, Array.length_toList, Nat.not_lt]

theorem ofExcept_ok {result : Except Reason Int} {v : Int} {s' : Evaluator} :
    (ofExcept result : Evaluating Int) s = .ok v s' ↔ result = .ok v ∧ s = s' := by
  cases result with
  | ok value => exact pure_ok.trans (by simp)
  | error reason => exact iff_of_false (by rintro ⟨⟩) (by rintro ⟨⟨⟩, -⟩)

end Moves

section Steps
variable {depth least : Nat} {left v : Int} {s s' : Evaluator} {lexeme : Lexeme}
  {rest : List Lexeme}

/-- What a climb that gives a value has done: it has ended before an operator that binds less, or
it has applied an operator and climbed on. -/
theorem climb_cases (h : climb (depth + 1) least left s = .ok v s') :
    (v = left ∧ s' = s ∧ BindsBelow least s.ahead) ∨
    ∃ operator precedence right value s₁, s.ahead.head? = some operator ∧
      operator.precedence? = some precedence ∧ least ≤ precedence ∧
      expression depth (precedence + 1) (s.advance 1) = .ok right s₁ ∧
      apply operator left right = .ok value ∧ climb depth least value s₁ = .ok v s' := by
  rw [climb, bind_at (peek_eq s)] at h
  cases hhead : s.ahead.head? with
  | none =>
    rw [hhead] at h
    obtain ⟨rfl, rfl⟩ := pure_ok.mp h
    refine .inl ⟨rfl, rfl, fun lexeme hlexeme => ?_⟩
    rw [hhead] at hlexeme
    cases hlexeme
  | some operator =>
    rw [hhead] at h
    dsimp only at h
    have hbelow (hlow : ∀ p, operator.precedence? = some p → p < least) :
        BindsBelow least s.ahead := by
      intro lexeme hlexeme
      rw [hhead] at hlexeme
      cases hlexeme
      exact hlow
    cases hprecedence : operator.precedence? with
    | none =>
      rw [hprecedence] at h
      obtain ⟨rfl, rfl⟩ := pure_ok.mp h
      exact .inl ⟨rfl, rfl, hbelow (by simp [hprecedence])⟩
    | some precedence =>
      rw [hprecedence] at h
      dsimp only at h
      split at h
      · rename_i hlt
        obtain ⟨rfl, rfl⟩ := pure_ok.mp h
        exact .inl ⟨rfl, rfl, hbelow (by simp [hprecedence, hlt])⟩
      · rename_i hle
        rw [bind_at (skip_eq s)] at h
        obtain ⟨right, s₁, hright, h⟩ := bind_ok.mp h
        obtain ⟨value, s₂, happlied, h⟩ := bind_ok.mp h
        obtain ⟨hvalue, rfl⟩ := ofExcept_ok.mp happlied
        exact .inr ⟨operator, precedence, right, value, s₁, rfl, hprecedence, Nat.not_lt.mp hle,
          hright, hvalue, h⟩

/-- How an operand is read from its first lexeme. -/
inductive OperandStep (depth : Nat) (s : Evaluator) (v : Int) : Lexeme → Evaluator → Prop
  | number : OperandStep depth s v (.number v) (s.advance 1)
  | minus {value : Int} {s' : Evaluator} (hvalue : operand depth (s.advance 1) = .ok value s')
      (hnegative : checked (-value) = .ok v) : OperandStep depth s v .minus s'
  | plus {s' : Evaluator} (hvalue : operand depth (s.advance 1) = .ok v s') :
      OperandStep depth s v .plus s'
  | opening {s₁ : Evaluator} {rest : List Lexeme}
      (hvalue : expression depth 1 (s.advance 1) = .ok v s₁)
      (hclosing : s₁.ahead = .closing :: rest) : OperandStep depth s v .opening (s₁.advance 1)

/-- What an operand that gives a value has done. -/
theorem operand_cases (h : operand (depth + 1) s = .ok v s') :
    ∃ lexeme rest, s.ahead = lexeme :: rest ∧ OperandStep depth s v lexeme s' := by
  rw [operand, bind_at (next_eq s)] at h
  cases hrest : s.ahead with
  | nil =>
    rw [hrest] at h
    cases h
  | cons lexeme rest =>
    rw [hrest, List.head?_cons] at h
    refine ⟨lexeme, rest, rfl, ?_⟩
    cases lexeme with
    | number value =>
      obtain ⟨rfl, rfl⟩ := pure_ok.mp h
      exact .number
    | minus =>
      obtain ⟨value, s₁, hvalue, h⟩ := bind_ok.mp h
      obtain ⟨hnegative, rfl⟩ := ofExcept_ok.mp h
      exact .minus hvalue hnegative
    | plus => exact .plus h
    | opening =>
      obtain ⟨value, s₁, hvalue, h⟩ := bind_ok.mp h
      rw [bind_at (next_eq s₁)] at h
      cases hs₁ : s₁.ahead with
      | nil =>
        rw [hs₁] at h
        cases h
      | cons lexeme rest =>
        rw [hs₁, List.head?_cons] at h
        cases lexeme with
        | closing =>
          obtain ⟨rfl, rfl⟩ := pure_ok.mp h
          exact .opening hvalue hs₁
        | number | plus | minus | star | slash | percent | opening => cases h
    | star | slash | percent | closing => cases h

/-- A climb ends before an operator that binds less. -/
theorem climb_stop (h : BindsBelow least s.ahead) :
    climb (depth + 1) least left s = .ok left s := by
  rw [climb, bind_at (peek_eq s)]
  cases hhead : s.ahead.head? with
  | none => rfl
  | some operator =>
    dsimp only
    cases hprecedence : operator.precedence? with
    | none => rfl
    | some precedence =>
      dsimp only
      rw [if_pos (h operator hhead precedence hprecedence)]
      rfl

/-- A climb goes on behind an operator that binds strongly enough. -/
theorem climb_step {precedence : Nat} {right value : Int} {s₁ : Evaluator}
    (hrest : s.ahead = lexeme :: rest) (hprecedence : lexeme.precedence? = some precedence)
    (hle : least ≤ precedence)
    (hright : expression depth (precedence + 1) (s.advance 1) = .ok right s₁)
    (hvalue : apply lexeme left right = .ok value) :
    climb (depth + 1) least left s = climb depth least value s₁ := by
  rw [climb, bind_at (peek_eq s), hrest, List.head?_cons]
  dsimp only
  rw [hprecedence]
  dsimp only
  rw [if_neg (Nat.not_lt.mpr hle), bind_at (skip_eq s)]
  exact (bind_at hright).trans (bind_at (ofExcept_ok.mpr ⟨hvalue, rfl⟩))

end Steps

/-! ## A value that is read is that of a tree -/

section Soundness

/-- The lexemes begin with a phrase that is computable and has the value `v`, and go on with
`rest`. -/
def Begins (phrase : Phrase) (input : List Lexeme) (v : Int) (rest : List Lexeme) : Prop :=
  ∃ used e, input = used ++ rest ∧ Derives phrase used e ∧ e.Computable ∧ e.value = v

/-- All numbers among the lexemes are words. -/
def NumbersFit (input : List Lexeme) : Prop := ∀ value, .number value ∈ input → IsWord value

/-- What has been read may stand to the left of an operator that follows, if it binds at least as
strongly as `least`. -/
structure Joinable (least : Nat) (used : List Lexeme) (e : Expression) (rest : List Lexeme) :
    Prop where
  derives : Derives (phraseAt least) used e
  left : ∀ lexeme ∈ rest.head?, ∀ precedence, lexeme.precedence? = some precedence →
    least ≤ precedence → Derives (phraseAt precedence) used e

/-- An evaluation from `least` gives the value of a phrase, and stops before an operator that
binds less. -/
def SoundFrom (depth least : Nat) : Prop :=
  ∀ s v s', NumbersFit s.ahead → expression depth least s = .ok v s' →
    Begins (phraseAt least) s.ahead v s'.ahead ∧ BindsBelow least s'.ahead

/-- An operand that is read is a factor. -/
def SoundOperand (depth : Nat) : Prop :=
  ∀ s v s', NumbersFit s.ahead → operand depth s = .ok v s' → Begins .factor s.ahead v s'.ahead

variable {depth least : Nat} {s s' : Evaluator} {v : Int}

theorem NumbersFit.suffix {used input : List Lexeme} (h : NumbersFit (used ++ input)) :
    NumbersFit input := fun value hvalue => h value (List.mem_append_right used hvalue)

theorem NumbersFit.tail {lexeme : Lexeme} {input : List Lexeme}
    (h : NumbersFit (lexeme :: input)) : NumbersFit input :=
  fun value hvalue => h value (List.mem_cons_of_mem lexeme hvalue)

/-- A phrase of a precedence may stand to the left of every operator that does not bind stronger.
Behind an operator's right operand no other follows. -/
theorem joinable_of_bindsBelow {precedence : Nat} {used rest : List Lexeme} {e : Expression}
    (h : Derives (phraseAt precedence) used e) (hrest : BindsBelow (precedence + 1) rest)
    (hpos : 1 ≤ least) (hle : least ≤ precedence) (hbound : precedence ≤ 3) :
    Joinable least used e rest where
  derives := h.atLower hpos hle hbound
  left lexeme hlexeme p hp _ :=
    h.atLower (precedence_bounds hp).1 (Nat.le_of_lt_succ (hrest lexeme hlexeme p hp)) hbound

/-- A climb makes a longer phrase of what was read. -/
theorem climb_sound (hpos : 1 ≤ least)
    (hright : ∀ d < depth, ∀ precedence, 1 ≤ precedence → precedence ≤ 2 →
      SoundFrom d (precedence + 1))
    {used : List Lexeme} {e : Expression} (hjoin : Joinable least used e s.ahead)
    (he : e.Computable) (hfit : NumbersFit s.ahead)
    (h : climb depth least e.value s = .ok v s') :
    (∃ more e', s.ahead = more ++ s'.ahead ∧ Derives (phraseAt least) (used ++ more) e' ∧
      e'.Computable ∧ e'.value = v) ∧ BindsBelow least s'.ahead := by
  induction depth generalizing used e s with
  | zero => cases h
  | succ depth ih =>
    obtain ⟨rfl, rfl, hbelow⟩ | ⟨lexeme, p, right, value, s₁, hhead, hp, hle, hread, hvalue, h⟩ :=
      climb_cases h
    · exact ⟨⟨[], e, rfl, by rw [List.append_nil]; exact hjoin.derives, he, rfl⟩, hbelow⟩
    · obtain ⟨input, hinput⟩ := List.head?_eq_some_iff.mp hhead
      have hadvanced : (s.advance 1).ahead = input := ahead_advance_one hinput
      have hp₂ := precedence_bounds hp
      rw [hinput] at hfit
      obtain ⟨⟨used', f, hused', hf, hcomputable, rfl⟩, hstop⟩ :=
        hright depth (Nat.lt_succ_self _) p hp₂.1 hp₂.2 _ _ _ (hadvanced ▸ hfit.tail) hread
      obtain ⟨operator, hjoins⟩ := exists_joins hp
      obtain ⟨happlies, hword, rfl⟩ := (hjoins.apply he.isWord).mp hvalue
      have hleft := hjoin.left lexeme hhead p hp hle
      have hnext : Joinable least (used ++ lexeme :: used') (.combined operator e f) s₁.ahead :=
        joinable_of_bindsBelow (hjoins.derives hleft hf) hstop hpos hle (by omega)
      rw [hadvanced] at hused'
      rw [hused'] at hfit hinput
      obtain ⟨⟨more, e', hmore, he', hfacts⟩, hbelow⟩ :=
        ih (fun d hd => hright d (Nat.lt_succ_of_lt hd)) hnext ⟨he, hcomputable, happlies, hword⟩
          hfit.tail.suffix h
      refine ⟨⟨lexeme :: (used' ++ more), e', ?_, by simpa using he', hfacts⟩, hbelow⟩
      rw [hinput, hmore]
      simp

theorem expression_sound (hpos : 1 ≤ least) (hle : least ≤ 3)
    (hoperand : ∀ d < depth, SoundOperand d)
    (hright : ∀ d < depth, ∀ precedence, 1 ≤ precedence → precedence ≤ 2 →
      SoundFrom d (precedence + 1)) : SoundFrom depth least := by
  intro s v s' hfit h
  cases depth with
  | zero => cases h
  | succ depth =>
    rw [expression] at h
    obtain ⟨left, s₁, hleft, h⟩ := bind_ok.mp h
    obtain ⟨used, e, hused, he, hcomputable, rfl⟩ :=
      hoperand depth (Nat.lt_succ_self _) _ _ _ hfit hleft
    have hfactor : Derives (phraseAt 3) used e := he
    have hjoin : Joinable least used e s₁.ahead :=
      joinable_of_bindsBelow hfactor ((bindsBelow_three _).mono (by decide)) hpos hle
        (Nat.le_refl 3)
    rw [hused] at hfit
    obtain ⟨⟨more, e', hmore, he', hfacts⟩, hbelow⟩ := climb_sound hpos
      (fun d hd => hright d (Nat.lt_succ_of_lt hd)) hjoin hcomputable hfit.suffix h
    refine ⟨⟨used ++ more, e', ?_, he', hfacts⟩, hbelow⟩
    rw [hused, hmore, List.append_assoc]

theorem operand_sound (hexpression : ∀ d < depth, SoundFrom d 1)
    (hoperand : ∀ d < depth, SoundOperand d) : SoundOperand depth := by
  intro s v s' hfit h
  cases depth with
  | zero => cases h
  | succ depth =>
    have hbelow := hoperand depth (Nat.lt_succ_self _)
    obtain ⟨lexeme, input, hrest, hread⟩ := operand_cases h
    have hadvanced : (s.advance 1).ahead = input := ahead_advance_one hrest
    rw [hrest] at hfit ⊢
    have hinput : NumbersFit (s.advance 1).ahead := hadvanced ▸ hfit.tail
    cases hread with
    | number =>
      exact ⟨[.number v], .number v, by rw [hadvanced]; rfl, .number v,
        hfit v List.mem_cons_self, rfl⟩
    | minus hvalue hnegative =>
      obtain ⟨used, e, hused, he, hcomputable, rfl⟩ := hbelow _ _ _ hinput hvalue
      obtain ⟨hword, rfl⟩ := checked_ok.mp hnegative
      exact ⟨.minus :: used, .negated e, by rw [← hadvanced, hused]; rfl, .negated he,
        ⟨hcomputable, hword⟩, rfl⟩
    | plus hvalue =>
      obtain ⟨used, e, hused, he, hcomputable, hv⟩ := hbelow _ _ _ hinput hvalue
      exact ⟨.plus :: used, e, by rw [← hadvanced, hused]; rfl, .signed he, hcomputable, hv⟩
    | @opening s₁ rest hvalue hclosing =>
      obtain ⟨⟨used, e, hused, he, hcomputable, rfl⟩, -⟩ :=
        hexpression depth (Nat.lt_succ_self _) _ _ _ hinput hvalue
      refine ⟨.opening :: (used ++ [.closing]), e, ?_, .enclosed he, hcomputable, rfl⟩
      rw [ahead_advance_one hclosing, ← hadvanced, hused, hclosing]
      simp

/-- **Whatever an evaluation gives is the exact value of a tree of the grammar.** -/
theorem sound (depth : Nat) :
    (∀ least, 1 ≤ least → least ≤ 3 → SoundFrom depth least) ∧ SoundOperand depth := by
  induction depth using Nat.strong_induction_on with
  | h depth ih =>
    have hright : ∀ d < depth, ∀ precedence, 1 ≤ precedence → precedence ≤ 2 →
        SoundFrom d (precedence + 1) :=
      fun d hd p hpos hle => (ih d hd).1 (p + 1) (by omega) (by omega)
    exact ⟨fun least hpos hle => expression_sound hpos hle (fun d hd => (ih d hd).2) hright,
      operand_sound (fun d hd => (ih d hd).1 1 (by decide) (by decide)) fun d hd => (ih d hd).2⟩

end Soundness

/-! ## A tree is read with its value -/

section Completeness

/-- The factor is read as an operand with the value of its tree, whatever follows. -/
def OperandRead (used : List Lexeme) (e : Expression) : Prop :=
  ∀ depth s rest, s.ahead = used ++ rest → 2 * used.length ≤ depth + 1 →
    operand depth s = .ok e.value (s.advance used.length)

/-- The phrase is read up to where the climb goes on behind it.  Each lexeme takes a depth of two
at most; the operators of the phrase, of which there are `steps`, take one each from what is left
for the climb. -/
def ReadFrom (precedence : Nat) (used : List Lexeme) (e : Expression) : Prop :=
  ∃ steps, 2 * steps < used.length ∧ ∀ least ≤ precedence, ∀ depth s rest,
    s.ahead = used ++ rest → BindsBelow (precedence + 1) rest →
    2 * used.length ≤ depth + steps + 1 →
    expression (depth + steps + 1) least s =
      climb depth least e.value (s.advance used.length)

/-- What is said of each kind of phrase. -/
def Complete (used : List Lexeme) (e : Expression) : Phrase → Prop
  | .factor => OperandRead used e
  | .product => ReadFrom 2 used e
  | .sum => ReadFrom 1 used e

variable {used used' rest : List Lexeme} {e left right : Expression} {precedence : Nat}

theorem OperandRead.readFrom (h : OperandRead used e) (hused : 0 < used.length) :
    ReadFrom precedence used e := by
  refine ⟨0, hused, fun least _ depth s rest hs _ hdepth => ?_⟩
  rw [Nat.add_zero, expression]
  exact bind_at (h depth s rest hs (by omega))

theorem ReadFrom.atLower (h : ReadFrom precedence used e) {lower : Nat} (hle : lower ≤ precedence) :
    ReadFrom lower used e := by
  obtain ⟨steps, hsteps, hread⟩ := h
  exact ⟨steps, hsteps, fun least hleast depth s rest hs hrest hdepth =>
    hread least (Nat.le_trans hleast hle) depth s rest hs (hrest.mono (Nat.succ_le_succ hle))
      hdepth⟩

/-- A phrase is read as a whole where what follows binds less. -/
theorem ReadFrom.expression (h : ReadFrom precedence used e) {depth : Nat} {s : Evaluator}
    (hs : s.ahead = used ++ rest) (hrest : BindsBelow precedence rest)
    (hdepth : 2 * used.length ≤ depth) :
    Evaluator.expression depth precedence s = .ok e.value (s.advance used.length) := by
  obtain ⟨steps, hsteps, hread⟩ := h
  obtain ⟨spare, rfl⟩ : ∃ spare, depth = spare + 1 + steps + 1 := ⟨depth - steps - 2, by omega⟩
  rw [hread precedence (Nat.le_refl _) (spare + 1) s rest hs (hrest.mono (Nat.le_succ _))
      (by omega), climb_stop (by rwa [ahead_advance_append hs])]

/-- The operands of an operator are read one after the other. -/
theorem ReadFrom.combined {lexeme : Lexeme} {operator : Operator}
    (hleft : ReadFrom precedence used left) (hright : ReadFrom (precedence + 1) used' right)
    (hprecedence : lexeme.precedence? = some precedence) (hjoins : Joins precedence lexeme operator)
    (hused : 0 < used'.length) (he : (Expression.combined operator left right).Computable) :
    ReadFrom precedence (used ++ lexeme :: used') (.combined operator left right) := by
  obtain ⟨steps, hsteps, hread⟩ := hleft
  refine ⟨steps + 1, by simp; omega, fun least hle depth s rest hs hrest hdepth => ?_⟩
  simp only [List.length_append, List.length_cons] at hdepth
  have hs' : s.ahead = used ++ lexeme :: (used' ++ rest) := by simpa using hs
  have hbehind : (s.advance used.length).ahead = lexeme :: (used' ++ rest) :=
    ahead_advance_append hs'
  have hoperator : BindsBelow (precedence + 1) (lexeme :: (used' ++ rest)) := by
    intro l hl p hp
    cases hl
    rw [hprecedence] at hp
    cases hp
    exact Nat.lt_succ_self _
  have hvalue : apply lexeme left.value right.value =
      .ok (operator.result left.value right.value) :=
    (hjoins.apply he.1.isWord).mpr ⟨he.2.2.1, he.2.2.2, rfl⟩
  have hoperand : Evaluator.expression depth (precedence + 1) _ = _ :=
    hright.expression (ahead_advance_one hbehind) hrest (by omega)
  have hbehind' : ((s.advance used.length).advance 1).advance used'.length =
      s.advance (used ++ lexeme :: used').length := by
    rw [advance_advance, advance_advance, List.length_append, List.length_cons, Nat.add_comm 1]
  calc Evaluator.expression (depth + (steps + 1) + 1) least s
      = Evaluator.expression (depth + 1 + steps + 1) least s := by congr 1; omega
    _ = climb (depth + 1) least left.value (s.advance used.length) :=
        hread least hle (depth + 1) s _ hs' hoperator (by omega)
    _ = climb depth least (operator.result left.value right.value)
          (((s.advance used.length).advance 1).advance used'.length) :=
        climb_step hbehind hprecedence hle hoperand hvalue
    _ = climb depth least (Expression.combined operator left right).value
          (s.advance (used ++ lexeme :: used').length) := by
        rw [hbehind']
        rfl

theorem Derives.length_pos {phrase : Phrase} (h : Derives phrase used e) : 0 < used.length := by
  induction h <;> simp_all

/-- **A computable tree of the grammar is read with its exact value.** -/
theorem complete {phrase : Phrase} (h : Derives phrase used e) (he : e.Computable) :
    Complete used e phrase := by
  induction h with
  | product h ih => exact (ih he).atLower (by decide)
  | additive hleft hoperator hright ihleft ihright =>
    exact (ihleft he.1).combined (ihright he.2.1) (precedence_of_additive? hoperator)
      (joins_additive hoperator) (Derives.length_pos hright) he
  | factor h ih => exact OperandRead.readFrom (ih he) (Derives.length_pos h)
  | multiplicative hleft hoperator hright ihleft ihright =>
    exact (ihleft he.1).combined (OperandRead.readFrom (ihright he.2.1) (Derives.length_pos hright))
      (precedence_of_multiplicative? hoperator) (joins_multiplicative hoperator)
      (Derives.length_pos hright) he
  | number value =>
    intro depth s rest hs hdepth
    cases depth with
    | zero => simp at hdepth
    | succ depth =>
      rw [operand, bind_at (next_eq s), hs]
      rfl
  | @negated input e h ih =>
    intro depth s rest hs hdepth
    simp only [List.length_cons] at hdepth ⊢
    cases depth with
    | zero => omega
    | succ depth =>
      have hinner := ih he.1 depth (s.advance 1) rest (ahead_advance_one hs) (by omega)
      rw [operand, bind_at (next_eq s), hs]
      refine (bind_at hinner).trans (ofExcept_ok.mpr ⟨checked_ok.mpr ⟨he.2, rfl⟩, ?_⟩)
      rw [advance_advance, Nat.add_comm]
  | @signed input e h ih =>
    intro depth s rest hs hdepth
    simp only [List.length_cons] at hdepth ⊢
    cases depth with
    | zero => omega
    | succ depth =>
      have hinner := ih he depth (s.advance 1) rest (ahead_advance_one hs) (by omega)
      rw [operand, bind_at (next_eq s), hs]
      refine hinner.trans ?_
      rw [advance_advance, Nat.add_comm]
  | @enclosed input e h ih =>
    intro depth s rest hs hdepth
    simp only [List.length_cons, List.length_append, List.length_nil] at hdepth
    cases depth with
    | zero => omega
    | succ depth =>
      have hinside : (s.advance 1).ahead = input ++ .closing :: rest := by
        rw [ahead_advance, hs]
        simp
      have hinner : Evaluator.expression depth 1 (s.advance 1) = _ :=
        (ih he).expression hinside bindsBelow_closing (by omega)
      rw [operand, bind_at (next_eq s), hs]
      refine (bind_at hinner).trans ((bind_at (next_eq _)).trans ?_)
      rw [ahead_advance_append hinside]
      refine pure_ok.mpr ⟨rfl, ?_⟩
      simp [Nat.add_comm, Nat.add_left_comm]

end Completeness
end Evaluator

/-! ## Whole texts -/

section Texts

/-- The numbers that a text spells are words. -/
theorem Spells.numbersFit {text : List Char} {input : List Lexeme} (h : Spells text input) :
    Evaluator.NumbersFit input := by
  induction h with
  | done => intro value hvalue; cases hvalue
  | blank _ _ ih => exact ih
  | symbol hc _ ih =>
    intro value hvalue
    rcases List.mem_cons.mp hvalue with rfl | hvalue
    · unfold symbol? at hc
      split at hc <;> cases hc
    · exact ih value hvalue
  | @number c run rest n input _ _ _ hn _ ih =>
    intro value hvalue
    rcases List.mem_cons.mp hvalue with hvalue | hvalue
    · cases hvalue
      have hsmall := hn.1
      constructor <;> omega
    · exact ih value hvalue

theorem fitsSigned_32 {v : Int} : Text.fitsSigned 32 v = true ↔ -2 ^ 31 ≤ v ∧ v < 2 ^ 31 := by
  simp [Text.fitsSigned]

theorem valueOf_iff {text : String} {v : Int} : valueOf text.toList = .ok v ↔ Denotes text v := by
  unfold valueOf Denotes
  constructor
  · intro h
    obtain ⟨input, hinput, h⟩ := except_bind_ok.mp h
    have hspells := lexemes_iff.mp hinput
    split at h
    · cases h
    · rename_i value s hvalue
      obtain ⟨⟨used, e, hused, he, hcomputable, rfl⟩, -⟩ :=
        (Evaluator.sound (depthFor input)).1 1 (by decide) (by decide) { lexemes := input.toArray }
          _ _ hspells.numbersFit hvalue
      split at h
      · cases h
      · rename_i hend
        split at h
        · rename_i hfits
          cases h
          rw [Evaluator.ahead_eq_nil.mpr hend, List.append_nil] at hused
          obtain rfl : input = used := hused
          exact ⟨input, e, hspells, he, hcomputable, rfl, fitsSigned_32.mp hfits⟩
        · cases h
  · rintro ⟨input, e, hspells, he, hcomputable, rfl, hfits⟩
    have hstart : Evaluator.ahead { lexemes := input.toArray } = input ++ [] :=
      (List.append_nil input).symm
    have hread : Evaluator.expression (depthFor input) 1 _ = _ :=
      (Evaluator.complete he hcomputable).expression hstart bindsBelow_nil
        (by unfold depthFor; omega)
    have hend := Evaluator.ahead_eq_nil.mp (Evaluator.ahead_advance_append hstart)
    refine except_bind_ok.mpr ⟨input, lexemes_iff.mpr hspells, ?_⟩
    rw [hread]
    dsimp only
    rw [if_neg hend, if_pos (fitsSigned_32.mpr hfits)]

/-- **A text evaluates to the exact value of the expression that it spells**, if it spells
one that is computable and has a value of 32 bits; every other text is a bad expression. -/
theorem evaluate_iff_denotes (text : String) :
    (∀ v, evaluate text = .ok v ↔ Denotes text v) ∧
      ((∃ reason, evaluate text = .error (.bad text reason)) ↔ ∀ v, ¬ Denotes text v) := by
  have hvalue (v : Int) : evaluate text = .ok v ↔ Denotes text v :=
    except_mapError_ok.trans valueOf_iff
  refine ⟨hvalue, ?_⟩
  constructor
  · rintro ⟨reason, hreason⟩ v hdenotes
    rw [(hvalue v).mpr hdenotes] at hreason
    cases hreason
  · intro hnone
    cases hresult : valueOf text.toList with
    | ok v => exact absurd (valueOf_iff.mp hresult) (hnone v)
    | error reason => exact ⟨reason, by rw [evaluate, hresult]; rfl⟩

end Texts

end DeviceSchema.Arithmetic
