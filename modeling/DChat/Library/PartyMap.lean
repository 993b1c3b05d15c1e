import Mathlib.Data.Option.Basic
import Mathlib.Logic.Function.Basic

/-!
# PartyMap — parties at addresses, and what a step does to all of them

A `Parties κ σ` gives the state of the party at every address where there is one.  A step of the
whole system is described by `Moved R`: nobody appears or disappears, and the state at each
address moves along `R`.  Frame conditions are `Moved` with an `R` that fixes some fields.
-/

namespace PartyMap

variable {κ σ : Type}

/-- The states of the parties, by address. -/
abbrev Parties (κ σ : Type) := κ → Option σ

/-- Change the state of the party at one address, if there is one. -/
def modify [DecidableEq κ] (k : κ) (f : σ → σ) (w : Parties κ σ) : Parties κ σ :=
  Function.update w k ((w k).map f)

@[simp] theorem modify_self [DecidableEq κ] (k : κ) (f : σ → σ) (w : Parties κ σ) :
    modify k f w k = (w k).map f := Function.update_self ..

@[simp] theorem modify_of_ne [DecidableEq κ] {k k' : κ} (h : k' ≠ k) (f : σ → σ)
    (w : Parties κ σ) : modify k f w k' = w k' := Function.update_of_ne h ..

theorem modify_congr [DecidableEq κ] {k : κ} {f g : σ → σ} {w : Parties κ σ}
    (h : ∀ s, w k = some s → f s = g s) : modify k f w = modify k g w := by
  rw [modify, modify]
  congr 1
  cases hw : w k with
  | none => rfl
  | some s => exact congrArg some (h s hw)

theorem modify_eq_self [DecidableEq κ] {k : κ} {f : σ → σ} {w : Parties κ σ}
    (h : ∀ s, w k = some s → f s = s) : modify k f w = w := by
  funext k'
  by_cases heq : k' = k
  · rw [heq, modify_self]
    cases hw : w k with
    | none => rfl
    | some s => exact congrArg some (h s hw)
  · exact modify_of_ne heq f w

/-- Every party is where it was, and its state moved along the relation. -/
def Moved (R : κ → σ → σ → Prop) (w w' : Parties κ σ) : Prop := ∀ k, Option.Rel (R k) (w k) (w' k)

namespace Moved

variable {R R' R'' : κ → σ → σ → Prop} {w w' w'' : Parties κ σ}

theorem refl (hR : ∀ k s, R k s s) (w : Parties κ σ) : Moved R w w := by
  intro k
  cases w k with
  | none => exact .none
  | some s => exact .some (hR k s)

theorem trans (hR : ∀ k s s' s'', R k s s' → R' k s' s'' → R'' k s s'') (h : Moved R w w')
    (h' : Moved R' w' w'') : Moved R'' w w'' := by
  intro k
  have hk := h k
  have hk' := h' k
  revert hk hk'
  cases w k <;> cases w' k <;> cases w'' k <;> intro hk hk' <;> cases hk <;> cases hk'
  · exact .none
  · rename_i hs hs'
    exact .some (hR k _ _ _ hs hs')

theorem mono (hR : ∀ k s s', w k = some s → R k s s' → R' k s s') (h : Moved R w w') :
    Moved R' w w' := by
  intro k
  have hk := h k
  cases hw : w k with
  | none =>
      rw [hw] at hk
      cases hw' : w' k with
      | none => exact .none
      | some s' =>
          rw [hw'] at hk
          cases hk
  | some s =>
      rw [hw] at hk
      cases hw' : w' k with
      | none =>
          rw [hw'] at hk
          cases hk
      | some s' =>
          rw [hw'] at hk
          cases hk with
          | some hrel => exact .some (hR k s s' hw hrel)

/-- Where a party was, there is one, in a related state. -/
theorem of_some {k : κ} {s : σ} (h : Moved R w w') (hs : w k = some s) :
    ∃ s', w' k = some s' ∧ R k s s' := by
  have hk := h k
  rw [hs] at hk
  cases hw : w' k with
  | none =>
      rw [hw] at hk
      cases hk
  | some s' =>
      rw [hw] at hk
      cases hk with
      | some hrel => exact ⟨s', rfl, hrel⟩

/-- Where a party is, there was one, in a related state. -/
theorem exists_of_some {k : κ} {s' : σ} (h : Moved R w w') (hs : w' k = some s') :
    ∃ s, w k = some s ∧ R k s s' := by
  have hk := h k
  rw [hs] at hk
  cases hw : w k with
  | none =>
      rw [hw] at hk
      cases hk
  | some s =>
      rw [hw] at hk
      cases hk with
      | some hrel => exact ⟨s, rfl, hrel⟩

theorem eq_none_iff {k : κ} (h : Moved R w w') : w' k = none ↔ w k = none := by
  have hk := h k
  cases hw : w k <;> cases hw' : w' k <;> simp only [hw, hw'] at hk <;> cases hk <;> simp

/-- A party in a new state. -/
theorem update [DecidableEq κ] {k : κ} {s s' : σ} (hk : w k = some s) (hR : R k s s')
    (hothers : ∀ k' s, k' ≠ k → R k' s s) : Moved R w (Function.update w k (some s')) := by
  intro k'
  by_cases heq : k' = k
  · subst heq
    rw [Function.update_self, hk]
    exact .some hR
  · rw [Function.update_of_ne heq]
    cases w k' with
    | none => exact .none
    | some s => exact .some (hothers k' s heq)

/-- A change at one address. -/
theorem modify [DecidableEq κ] {k : κ} {f : σ → σ} (hk : ∀ s, w k = some s → R k s (f s))
    (hothers : ∀ k' s, k' ≠ k → R k' s s) : Moved R w (modify k f w) := by
  intro k'
  by_cases heq : k' = k
  · subst heq
    rw [modify_self]
    cases hw : w k' with
    | none => exact .none
    | some s => exact .some (hk s hw)
  · rw [modify_of_ne heq]
    cases w k' with
    | none => exact .none
    | some s => exact .some (hothers k' s heq)

end Moved

end PartyMap
