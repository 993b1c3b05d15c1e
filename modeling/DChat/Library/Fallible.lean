import Mathlib.Data.List.Basic

/-!
# Fallible — what a sequence of computations may throw and return

`OnlyThrows p x` says that every exception of `x` has the property `p`.  A sequence throws what its
parts throw, the later ones only after the earlier ones went through.  `Returns r x` says that
every result of `x` has the property `r`.
-/

namespace Fallible

variable {ε α β : Type}

theorem bind_eq_ok {x : Except ε α} {f : α → Except ε β} {b : β} :
    x >>= f = .ok b ↔ ∃ a, x = .ok a ∧ f a = .ok b := by
  cases x <;> simp [bind, Except.bind]

theorem bind_eq_error {x : Except ε α} {f : α → Except ε β} {e : ε} :
    x >>= f = .error e ↔ x = .error e ∨ ∃ a, x = .ok a ∧ f a = .error e := by
  cases x <;> simp [bind, Except.bind]

/-- A computation that ends with `return` goes through with what it returns. -/
theorem bind_pure_eq_ok {x : Except ε α} {f : α → β} {b : β} :
    (x >>= fun a => pure (f a)) = .ok b ↔ ∃ a, x = .ok a ∧ f a = b := by
  simp [bind_eq_ok, pure, Except.pure]

theorem bind_pure_eq_error {x : Except ε α} {f : α → β} {e : ε} :
    (x >>= fun a => pure (f a)) = .error e ↔ x = .error e := by
  simp [bind_eq_error, pure, Except.pure]

/-- Every exception of the computation has the property. -/
def OnlyThrows (p : ε → Prop) (x : Except ε α) : Prop := ∀ e, x = .error e → p e

variable {p q : ε → Prop}

theorem onlyThrows_ok (a : α) : OnlyThrows p (.ok a : Except ε α) := by
  intro e h
  cases h

theorem onlyThrows_pure (a : α) : OnlyThrows p (pure a : Except ε α) := onlyThrows_ok a

theorem onlyThrows_error {e : ε} : OnlyThrows p (.error e : Except ε α) ↔ p e := by
  constructor
  · intro h
    exact h e rfl
  · intro h e' he
    exact Except.error.inj he ▸ h

theorem onlyThrows_bind {x : Except ε α} {f : α → Except ε β} :
    OnlyThrows p (x >>= f) ↔ OnlyThrows p x ∧ ∀ a, x = .ok a → OnlyThrows p (f a) := by
  constructor
  · intro h
    exact ⟨fun e he => h e (bind_eq_error.2 (Or.inl he)),
      fun a ha e he => h e (bind_eq_error.2 (Or.inr ⟨a, ha, he⟩))⟩
  · rintro ⟨hx, hf⟩ e he
    rcases bind_eq_error.1 he with h | ⟨a, ha, h⟩
    · exact hx e h
    · exact hf a ha e h

theorem OnlyThrows.bind {x : Except ε α} {f : α → Except ε β} (hx : OnlyThrows p x)
    (hf : ∀ a, x = .ok a → OnlyThrows p (f a)) : OnlyThrows p (x >>= f) :=
  onlyThrows_bind.2 ⟨hx, hf⟩

theorem onlyThrows_bind_pure {x : Except ε α} {f : α → β} :
    OnlyThrows p (x >>= fun a => pure (f a)) ↔ OnlyThrows p x := by
  rw [onlyThrows_bind]
  exact and_iff_left fun a _ => onlyThrows_pure (f a)

theorem OnlyThrows.map {x : Except ε α} (h : OnlyThrows p x) (f : α → β) :
    OnlyThrows p (f <$> x) := by
  cases x with
  | ok a => exact onlyThrows_ok (f a)
  | error e =>
      intro e' he
      exact h e' (Except.error.inj he ▸ rfl)

theorem OnlyThrows.mono {x : Except ε α} (h : OnlyThrows p x) (hpq : ∀ e, p e → q e) :
    OnlyThrows q x := fun e he => hpq e (h e he)

/-- Every result of the computation has the property. -/
def Returns (r : α → Prop) (x : Except ε α) : Prop := ∀ a, x = .ok a → r a

theorem returns_pure {r : α → Prop} {a : α} (h : r a) : Returns r (pure a : Except ε α) := by
  intro b hb
  exact Except.ok.inj hb ▸ h

/-- A sequence returns what its last part returns. -/
theorem Returns.bind {r : β → Prop} {x : Except ε α} {f : α → Except ε β}
    (hf : ∀ a, x = .ok a → Returns r (f a)) : Returns r (x >>= f) := by
  intro b hb
  rcases bind_eq_ok.1 hb with ⟨a, ha, hb⟩
  exact hf a ha b hb

end Fallible
