import Mathlib.Data.List.Basic

/-!
# Locking — calls on an object behind a mutex that is not recursive

A `Call` works on a value together with the mutex that guards it.  It ends with a result, with an
exception, or at the attempt to lock the mutex while it is held: one thread makes all the calls
here, so nobody will ever unlock it.

`Ends` is the postcondition of a call that does not get stuck.
-/

namespace Locking

/-- What may end a call early. -/
inductive Stop (ε : Type)
  | thrown (e : ε)
  /-- The mutex is held by the caller. -/
  | selfLocked

/-- A value and whether its mutex is held. -/
structure Guarded (σ : Type) where
  value : σ
  held : Bool

/-- A call on the guarded value. -/
abbrev Call (σ ε α : Type) := EStateM (Stop ε) (Guarded σ) α

/-- How a call ends. -/
abbrev Result (σ ε α : Type) := EStateM.Result (Stop ε) (Guarded σ) α

variable {σ ε α β : Type}

/-- Throw or return what was computed without the value. -/
def liftExcept : Except ε α → Call σ ε α
  | .ok a => pure a
  | .error e => throw (.thrown e)

def readValue : Call σ ε σ := do return (← get).value

def writeValue (v : σ) : Call σ ε Unit := modify fun s => { s with value := v }

/-- A scope with a lock guard: it locks, and unlocks however the body ends. -/
def lockGuard (body : Call σ ε α) : Call σ ε α := fun s =>
  if s.held then
    .error .selfLocked s
  else
    match body { s with held := true } with
    | .ok a s' => .ok a { s' with held := false }
    | .error (.thrown e) s' => .error (.thrown e) { s' with held := false }
    | .error .selfLocked s' => .error .selfLocked s'

/-- What a call leaves behind. -/
def Result.left : Result σ ε α → Guarded σ
  | .ok _ s => s
  | .error _ s => s

/-- The call does not get stuck, and what it leaves behind satisfies `post`. -/
def Ends (post : Guarded σ → Prop) : Result σ ε α → Prop
  | .ok _ s => post s
  | .error (.thrown _) s => post s
  | .error .selfLocked _ => False

variable {post mid : Guarded σ → Prop} {s : Guarded σ}

/-! ## Rules -/

theorem Ends.left {r : Result σ ε α} (h : Ends post r) : post (Result.left r) := by
  cases r with
  | ok a s' => exact h
  | error stop s' =>
      cases stop with
      | thrown e => exact h
      | selfLocked => exact absurd h id

theorem Ends.mono {r : Result σ ε α} (h : Ends mid r) (hpost : ∀ s', mid s' → post s') :
    Ends post r := by
  cases r with
  | ok a s' => exact hpost s' h
  | error stop s' =>
      cases stop with
      | thrown e => exact hpost s' h
      | selfLocked => exact absurd h id

theorem ends_pure (a : α) (h : post s) : Ends post ((pure a : Call σ ε α) s) := h

theorem ends_throw (e : ε) (h : post s) : Ends post ((throw (.thrown e) : Call σ ε α) s) := h

theorem ends_liftExcept (x : Except ε α) (h : post s) :
    Ends post ((liftExcept x : Call σ ε α) s) := by
  cases x with
  | ok a => exact ends_pure a h
  | error e => exact ends_throw e h

/-- Sequencing: the second part starts where the first one left off, unless that threw. -/
theorem Ends.bind {m : Call σ ε α} {f : α → Call σ ε β} (h : Ends mid (m s))
    (hthrown : ∀ s', mid s' → post s') (hf : ∀ a s', mid s' → Ends post (f a s')) :
    Ends post ((m >>= f) s) := by
  change Ends post (EStateM.bind m f s)
  rw [EStateM.bind]
  cases hm : m s with
  | ok a s' =>
      rw [hm] at h
      exact hf a s' h
  | error stop s' =>
      rw [hm] at h
      cases stop with
      | thrown e => exact hthrown s' h
      | selfLocked => exact absurd h id

/-- A loop whose body keeps what holds. -/
theorem ends_forM {γ : Type} {body : γ → Call σ ε PUnit}
    (hbody : ∀ x s', post s' → Ends post (body x s')) (xs : List γ) (h : post s) :
    Ends post (xs.forM body s) := by
  induction xs generalizing s with
  | nil => exact h
  | cons x xs ih => exact Ends.bind (hbody x s h) (fun _ hs' => hs') fun _ _ hs' => ih hs'

/-- From outside, a guarded scope is its body with the mutex held. -/
theorem ends_lockGuard {body : Call σ ε α} (hfree : s.held = false)
    (h : Ends (fun s' => post { s' with held := false }) (body { s with held := true })) :
    Ends post (lockGuard body s) := by
  rw [lockGuard, if_neg (by rw [hfree]; exact Bool.false_ne_true)]
  cases hbody : body { s with held := true } with
  | ok a s' =>
      rw [hbody] at h
      exact h
  | error stop s' =>
      rw [hbody] at h
      cases stop with
      | thrown e => exact h
      | selfLocked => exact absurd h id

/-- A guarded scope inside another one gets stuck. -/
theorem lockGuard_of_held (body : Call σ ε α) (h : s.held = true) :
    lockGuard body s = .error .selfLocked s := by
  rw [lockGuard, if_pos h]

/-! ## Along a run -/

/-- What holds of each call of a run and the calls before it. -/
def Along {γ : Type} (P : List γ → γ → Prop) (calls : List γ) : Prop :=
  ∀ earlier call, earlier ++ [call] <+: calls → P earlier call

theorem along_nil {γ : Type} {P : List γ → γ → Prop} : Along P [] := by
  intro earlier call h
  have hlength := h.length_le
  simp at hlength

theorem along_concat {γ : Type} {P : List γ → γ → Prop} {calls : List γ} {call : γ} :
    Along P (calls ++ [call]) ↔ Along P calls ∧ P calls call := by
  constructor
  · intro h
    refine ⟨?_, h calls call (List.prefix_refl _)⟩
    intro earlier c hbegins
    exact h earlier c (hbegins.trans (List.prefix_append _ _))
  · rintro ⟨hearlier, hlast⟩ earlier c hbegins
    rcases List.prefix_concat_iff.1 hbegins with heq | hshort
    · rcases List.append_inj' heq rfl with ⟨rfl, hc⟩
      exact List.singleton_inj.1 hc ▸ hlast
    · exact hearlier earlier c hshort

end Locking
