/-!
# Checks in a row

Readers and requests that can fail are written as checks in a row, the first failure being the
result. Such a row succeeds exactly when each check does, and these lemmas take it apart.
-/

namespace BranchSync

variable {ε α β : Type}

/-- Two checks in a row succeed exactly when the first does and the second does with its value. -/
theorem bind_eq_ok_iff {check : Except ε α} {next : α → Except ε β} {b : β} :
    check >>= next = .ok b ↔ ∃ a, check = .ok a ∧ next a = .ok b := by
  cases check with
  | error e =>
    constructor
    · intro h
      cases h
    · intro h
      obtain ⟨a, ha, -⟩ := h
      cases ha
  | ok a =>
    constructor
    · intro h
      exact ⟨a, rfl, h⟩
    · intro h
      obtain ⟨a', ha, hnext⟩ := h
      cases ha
      exact hnext

/-- Two checks in a row fail exactly when the first does or the second does with its value. -/
theorem bind_eq_error_iff {check : Except ε α} {next : α → Except ε β} {e : ε} :
    check >>= next = .error e ↔ check = .error e ∨ ∃ a, check = .ok a ∧ next a = .error e := by
  cases check with
  | error e' =>
    constructor
    · intro h
      cases h
      exact Or.inl rfl
    · intro h
      rcases h with h | ⟨a, ha, -⟩
      · cases h
        rfl
      · cases ha
  | ok a =>
    constructor
    · intro h
      exact Or.inr ⟨a, rfl, h⟩
    · intro h
      rcases h with h | ⟨a', ha, hnext⟩
      · cases h
      · cases ha
        exact hnext

/-- A check whose value is converted succeeds exactly when it does, with the converted value. -/
theorem map_eq_ok_iff {check : Except ε α} {f : α → β} {b : β} :
    check.map f = .ok b ↔ ∃ a, check = .ok a ∧ f a = b := by
  cases check <;> simp [Except.map]

/-- A check whose value is converted fails exactly as it does. -/
theorem map_eq_error_iff {check : Except ε α} {f : α → β} {e : ε} :
    check.map f = .error e ↔ check = .error e := by
  cases check <;> simp [Except.map]

/-- The end of a row succeeds with its value and no other. -/
theorem pure_eq_ok_iff {a b : α} : (pure a : Except ε α) = .ok b ↔ a = b := by
  constructor
  · intro h
    exact Except.ok.inj h
  · intro h
    rw [h]
    rfl

end BranchSync
