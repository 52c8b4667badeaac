/-! # Computations that may fail

A computation gives a value or fails, and one that is made of two gives what the second gives
behind the first.  The lemmas here open such a composite by how it ended: for computations that
only give something (`except_bind_ok`), and for those that change a state as they go and leave it
also where they fail (`bind_ok`, `bind_error`; `bind_at` and `bind_congr_at` say what they come
to).
-/
namespace DeviceSchema
variable {ε σ α β : Type}

section Results

theorem except_bind_ok {m : Except ε α} {f : α → Except ε β} {b : β} :
    (m >>= f) = .ok b ↔ ∃ a, m = .ok a ∧ f a = .ok b := by
  cases m <;> simp [Bind.bind, Except.bind]

theorem except_map_ok {m : Except ε α} {f : α → β} {b : β} :
    m.map f = .ok b ↔ ∃ a, m = .ok a ∧ f a = b := by
  cases m <;> simp [Except.map]

/-- Another wording of failures leaves the values. -/
theorem except_mapError_ok {ε' : Type} {m : Except ε α} {f : ε → ε'} {a : α} :
    m.mapError f = .ok a ↔ m = .ok a := by
  cases m with
  | ok value => exact ⟨fun h => by cases h; rfl, fun h => by cases h; rfl⟩
  | error failure => exact ⟨nofun, nofun⟩

theorem except_seq_ok {first : Except ε Unit} {next : Except ε α} {a : α} :
    (do first; next) = .ok a ↔ first = .ok () ∧ next = .ok a := by
  cases first <;> simp [Bind.bind, Except.bind]

theorem except_ok_of_isSome {result : Except ε Unit}
    (h : result.toOption.isSome = true) : result = .ok () := by
  cases result with
  | ok u => rfl
  | error fault => cases h

end Results

section Steps

theorem bind_ok {m : EStateM ε σ α} {f : α → EStateM ε σ β} {p r : σ} {b : β} :
    (m >>= f) p = .ok b r ↔ ∃ a q, m p = .ok a q ∧ f a q = .ok b r := by
  show EStateM.bind m f p = _ ↔ _
  unfold EStateM.bind
  cases m p <;> simp [and_assoc]

theorem bind_error {m : EStateM ε σ α} {f : α → EStateM ε σ β} {p r : σ} {failure : ε} :
    (m >>= f) p = .error failure r ↔
      m p = .error failure r ∨ ∃ a q, m p = .ok a q ∧ f a q = .error failure r := by
  show EStateM.bind m f p = _ ↔ _
  unfold EStateM.bind
  cases m p <;> simp [and_assoc]

/-- Behind a step that succeeds, the next one decides. -/
theorem bind_at {m : EStateM ε σ α} {f : α → EStateM ε σ β} {p q : σ} {a : α}
    (hm : m p = .ok a q) : (m >>= f) p = f a q := by
  show EStateM.bind m f p = f a q
  unfold EStateM.bind
  rw [hm]

/-- What a step and the next one give is settled where the step leads. -/
theorem bind_congr_at {m m' : EStateM ε σ α} {f f' : α → EStateM ε σ β} {p p' : σ}
    (hm : m p = m' p') (hf : ∀ a q, m' p' = .ok a q → f a q = f' a q) :
    (m >>= f) p = (m' >>= f') p' := by
  show EStateM.bind m f p = EStateM.bind m' f' p'
  unfold EStateM.bind
  rw [hm]
  cases hmp : m' p' with
  | ok a q => exact hf a q hmp
  | error failure q => rfl

theorem pure_ok {a b : α} {p q : σ} :
    (pure a : EStateM ε σ α) p = .ok b q ↔ a = b ∧ p = q := by
  show EStateM.Result.ok a p = _ ↔ _
  simp

end Steps
end DeviceSchema
