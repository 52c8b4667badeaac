import DeviceSchema.Proofs.Arithmetic.Evaluation

/-! # The depth of an evaluation decides nothing

An evaluation is bounded in its depth, so it could fail for the bound alone.  It never does.  Of
the lexemes that are left, each lets an evaluation enter an operand and an expression at most, and
whatever is read takes a lexeme (`consumes`).  So two steps for each lexeme are deep
enough: with one more, nothing changes (`deeper`), neither a value nor the reason of a failure
(`expression_of_depthFor_le`).
-/
namespace DeviceSchema.Arithmetic.Evaluator
variable {depth least : Nat} {left v : Int} {s s' : Evaluator}

/-- The number of lexemes that are left. -/
def unread (s : Evaluator) : Nat := s.ahead.length

theorem unread_advance (s : Evaluator) : (s.advance 1).unread = s.unread - 1 := by
  rw [unread, ahead_advance, List.length_drop, unread]

theorem unread_pos {lexeme : Lexeme} (h : s.ahead.head? = some lexeme) : 0 < s.unread := by
  obtain ⟨rest, hrest⟩ := List.head?_eq_some_iff.mp h
  rw [unread, hrest]
  exact Nat.succ_pos _

/-! ## What is read takes lexemes -/

/-- An expression that is read takes a lexeme at least. -/
def ExpressionConsumes (depth : Nat) : Prop :=
  ∀ least s v s', expression depth least s = .ok v s' → s'.unread < s.unread

/-- An operand that is read takes a lexeme at least. -/
def OperandConsumes (depth : Nat) : Prop :=
  ∀ s v s', operand depth s = .ok v s' → s'.unread < s.unread

/-- A climb never goes back. -/
theorem climb_consumes (hright : ∀ d < depth, ExpressionConsumes d)
    (h : climb depth least left s = .ok v s') : s'.unread ≤ s.unread := by
  induction depth generalizing left s with
  | zero => cases h
  | succ depth ih =>
    obtain ⟨-, rfl, -⟩ | ⟨lexeme, p, right, value, s₁, -, -, -, hread, -, h⟩ := climb_cases h
    · exact Nat.le_refl _
    · have hread := hright depth (Nat.lt_succ_self _) _ _ _ _ hread
      have hclimb := ih (fun d hd => hright d (Nat.lt_succ_of_lt hd)) h
      rw [unread_advance] at hread
      omega

theorem operand_consumes_step (hoperand : OperandConsumes depth)
    (hexpression : ExpressionConsumes depth) : OperandConsumes (depth + 1) := by
  intro s v s' h
  obtain ⟨lexeme, rest, hrest, hread⟩ := operand_cases h
  have hpos : 0 < s.unread := unread_pos (by rw [hrest]; rfl)
  have hadvance := unread_advance s
  cases hread with
  | number => omega
  | minus hvalue _ =>
    have := hoperand _ _ _ hvalue
    omega
  | plus hvalue =>
    have := hoperand _ _ _ hvalue
    omega
  | @opening s₁ _ hvalue _ =>
    have := hexpression _ _ _ _ hvalue
    have := unread_advance s₁
    omega

/-- **Whatever is read takes a lexeme.** -/
theorem consumes (depth : Nat) : ExpressionConsumes depth ∧ OperandConsumes depth := by
  induction depth using Nat.strong_induction_on with
  | h depth ih =>
    cases depth with
    | zero => exact ⟨by rintro _ _ _ _ ⟨⟩, by rintro _ _ _ ⟨⟩⟩
    | succ depth =>
      have hbelow := ih depth (Nat.lt_succ_self _)
      refine ⟨fun least s v s' h => ?_, operand_consumes_step hbelow.2 hbelow.1⟩
      rw [expression] at h
      obtain ⟨left, s₁, hleft, h⟩ := bind_ok.mp h
      exact Nat.lt_of_le_of_lt
        (climb_consumes (fun d hd => (ih d (Nat.lt_succ_of_lt hd)).1) h) (hbelow.2 _ _ _ hleft)

/-! ## More depth changes nothing -/

/-- An expression comes to the same with one more step, if there are two steps for each lexeme and
two for the expression itself. -/
def ExpressionDeeper (depth : Nat) : Prop :=
  ∀ least s, 2 * s.unread + 2 ≤ depth → expression (depth + 1) least s = expression depth least s

/-- A climb comes to the same with one more step. -/
def ClimbDeeper (depth : Nat) : Prop :=
  ∀ least left s, 2 * s.unread + 1 ≤ depth →
    climb (depth + 1) least left s = climb depth least left s

/-- An operand comes to the same with one more step. -/
def OperandDeeper (depth : Nat) : Prop :=
  ∀ s, 2 * s.unread + 1 ≤ depth → operand (depth + 1) s = operand depth s

theorem expression_deeper (hoperand : OperandDeeper depth) (hclimb : ClimbDeeper depth) :
    ExpressionDeeper (depth + 1) := by
  intro least s hdepth
  rw [expression, expression]
  refine bind_congr_at (hoperand s (by omega)) fun left s₁ hleft => ?_
  have := (consumes depth).2 _ _ _ hleft
  exact hclimb least left s₁ (by omega)

theorem climb_deeper (hexpression : ExpressionDeeper depth) (hclimb : ClimbDeeper depth) :
    ClimbDeeper (depth + 1) := by
  intro least left s hdepth
  rw [climb, climb, bind_at (peek_eq s), bind_at (peek_eq s)]
  cases hhead : s.ahead.head? with
  | none => rfl
  | some operator =>
    have hpos := unread_pos hhead
    have hadvance := unread_advance s
    dsimp only
    cases hprecedence : operator.precedence? with
    | none => rfl
    | some precedence =>
      dsimp only
      split
      · rfl
      · rw [bind_at (skip_eq s), bind_at (skip_eq s)]
        refine bind_congr_at (hexpression _ _ (by omega)) fun right s₁ hright => ?_
        have := (consumes depth).1 _ _ _ _ hright
        refine bind_congr_at rfl fun value s₂ hvalue => ?_
        obtain ⟨-, rfl⟩ := ofExcept_ok.mp hvalue
        exact hclimb least value s₁ (by omega)

theorem operand_deeper (hexpression : ExpressionDeeper depth) (hoperand : OperandDeeper depth) :
    OperandDeeper (depth + 1) := by
  intro s hdepth
  rw [operand, operand, bind_at (next_eq s), bind_at (next_eq s)]
  cases hhead : s.ahead.head? with
  | none => rfl
  | some lexeme =>
    have hpos := unread_pos hhead
    have hadvance := unread_advance s
    cases lexeme with
    | minus => exact bind_congr_at (hoperand _ (by omega)) fun value s₁ _ => rfl
    | plus => exact hoperand _ (by omega)
    | opening => exact bind_congr_at (hexpression _ _ (by omega)) fun value s₁ _ => rfl
    | number | star | slash | percent | closing => rfl

theorem deeper (depth : Nat) :
    ExpressionDeeper depth ∧ ClimbDeeper depth ∧ OperandDeeper depth := by
  induction depth with
  | zero => exact ⟨by rintro _ _ ⟨⟩, by rintro _ _ _ ⟨⟩, by rintro _ ⟨⟩⟩
  | succ depth ih =>
    obtain ⟨hexpression, hclimb, hoperand⟩ := ih
    exact ⟨expression_deeper hoperand hclimb, climb_deeper hexpression hclimb,
      operand_deeper hexpression hoperand⟩

/-- **An evaluation that is deep enough for its lexemes comes to the same at every greater
depth**, also where it fails. -/
theorem expression_of_depthFor_le (h : depthFor s.ahead ≤ depth) :
    expression depth least s = expression (depthFor s.ahead) least s := by
  induction depth, h using Nat.le_induction with
  | base => rfl
  | succ depth hle ih => rw [(deeper depth).1 least s hle, ih]

end DeviceSchema.Arithmetic.Evaluator
