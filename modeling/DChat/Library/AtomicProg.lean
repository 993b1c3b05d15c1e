import Mathlib.Data.List.Basic
import Mathlib.Logic.Relation

/-!
# AtomicProg — programs over atomic calls, alone and interleaved

A `Prog` is a program that talks to one shared object through calls, each of which is
atomic.  The same program has two meanings:

* `Prog.run` executes it alone, call after call;
* `Step` lets any number of programs take turns on the object, one call at a time.

Each thread carries a tag.  A tag is auxiliary state: `note` updates it when the thread
makes a call, and no program reads it.

`Secure` is what a thread has to satisfy by itself, under a `Rely`: an invariant of the object
and a preorder along which every call moves it.  `Holds.reachable` is the rule this buys: when
every program that may start is secure, so is every pool that is reached.
-/

namespace AtomicProg

/-- A program whose calls `op` answer with a value of type `Res op`. -/
inductive Prog (Op : Type) (Res : Op → Type) (α : Type)
  | done (a : α)
  | call (op : Op) (k : Res op → Prog Op Res α)

variable {Op : Type} {Res : Op → Type} {σ τ α β : Type}

namespace Prog

/-- Continue with `f` after the program is done. -/
def bind : Prog Op Res α → (α → Prog Op Res β) → Prog Op Res β
  | .done a, f => f a
  | .call op k, f => .call op fun r => (k r).bind f

instance : Monad (Prog Op Res) where
  pure := .done
  bind := Prog.bind

@[simp] theorem pure_def (a : α) : (pure a : Prog Op Res α) = .done a := rfl

@[simp] theorem done_bind (a : α) (f : α → Prog Op Res β) :
    ((.done a : Prog Op Res α) >>= f) = f a := rfl

@[simp] theorem call_bind (op : Op) (k : Res op → Prog Op Res α) (f : α → Prog Op Res β) :
    ((.call op k : Prog Op Res α) >>= f) = .call op fun r => k r >>= f := rfl

theorem bind_assoc {γ : Type} (p : Prog Op Res α) (f : α → Prog Op Res β)
    (g : β → Prog Op Res γ) : p >>= f >>= g = p >>= fun a => f a >>= g := by
  induction p with
  | done a => rfl
  | call op k ih => exact congrArg (Prog.call op) (funext ih)

/-- Execute a program alone. -/
def run (exec : (op : Op) → σ → Res op × σ) : Prog Op Res α → σ → α × σ
  | .done a, s => (a, s)
  | .call op k, s => (k (exec op s).1).run exec (exec op s).2

variable (exec : (op : Op) → σ → Res op × σ)

@[simp] theorem run_done (a : α) (s : σ) : (.done a : Prog Op Res α).run exec s = (a, s) := rfl

@[simp] theorem run_call (op : Op) (k : Res op → Prog Op Res α) (s : σ) :
    (.call op k : Prog Op Res α).run exec s = (k (exec op s).1).run exec (exec op s).2 := rfl

theorem run_bind (p : Prog Op Res α) (f : α → Prog Op Res β) (s : σ) :
    (p >>= f).run exec s = (f (p.run exec s).1).run exec (p.run exec s).2 := by
  induction p generalizing s with
  | done a => rfl
  | call op k ih => simpa using ih (exec op s).1 (exec op s).2

/-- The program ends with the result for some answers of the object. -/
def CanReturn : Prog Op Res α → α → Prop
  | .done a, b => a = b
  | .call op k, b => ∃ r : Res op, (k r).CanReturn b

theorem canReturn_bind {p : Prog Op Res α} {f : α → Prog Op Res β} {b : β} :
    (p >>= f).CanReturn b ↔ ∃ a, p.CanReturn a ∧ (f a).CanReturn b := by
  induction p with
  | done a => simp [CanReturn]
  | call op k ih =>
      simp only [call_bind, CanReturn, ih]
      constructor
      · rintro ⟨r, a, ha, hb⟩
        exact ⟨a, ⟨r, ha⟩, hb⟩
      · rintro ⟨a, ⟨r, ha⟩, hb⟩
        exact ⟨r, a, ha, hb⟩

/-- What a program gives alone is one of its results. -/
theorem canReturn_run (p : Prog Op Res α) (s : σ) : p.CanReturn (p.run exec s).1 := by
  induction p generalizing s with
  | done a => rfl
  | call op k ih => exact ⟨(exec op s).1, ih (exec op s).1 (exec op s).2⟩

/-- Every call of the program satisfies `P`, whatever the object answers. -/
def Only (P : Op → Prop) : Prog Op Res α → Prop
  | .done _ => True
  | .call op k => P op ∧ ∀ r : Res op, (k r).Only P

theorem Only.imp {P Q : Op → Prop} {p : Prog Op Res α} (h : p.Only P) (hPQ : ∀ op, P op → Q op) :
    p.Only Q := by
  induction p with
  | done a => trivial
  | call op k ih => exact ⟨hPQ op h.1, fun r => ih r (h.2 r)⟩

theorem Only.bind {P : Op → Prop} {p : Prog Op Res α} {f : α → Prog Op Res β} (h : p.Only P)
    (hf : ∀ a, (f a).Only P) : (p >>= f).Only P := by
  induction p with
  | done a => exact hf a
  | call op k ih => exact ⟨h.1, fun r => ih r (h.2 r)⟩

/-! ### Calls made of smaller calls -/

section Lift

variable {Op' : Type} {Res' : Op' → Type} {σ' : Type}

/-- Replace every call by a program over other calls. -/
def lift (f : (op : Op) → Prog Op' Res' (Res op)) : Prog Op Res α → Prog Op' Res' α
  | .done a => .done a
  | .call op k => f op >>= fun r => (k r).lift f

variable {f : (op : Op) → Prog Op' Res' (Res op)}

@[simp] theorem lift_done (a : α) : (.done a : Prog Op Res α).lift f = .done a := rfl

@[simp] theorem lift_call (op : Op) (k : Res op → Prog Op Res α) :
    (.call op k : Prog Op Res α).lift f = f op >>= fun r => (k r).lift f := rfl

theorem lift_bind (p : Prog Op Res α) (g : α → Prog Op Res β) :
    (p >>= g).lift f = p.lift f >>= fun a => (g a).lift f := by
  induction p with
  | done a => rfl
  | call op k ih => simp only [call_bind, lift_call, bind_assoc, ih]

theorem Only.lift {P : Op → Prop} {Q : Op' → Prop} {p : Prog Op Res α} (h : p.Only P)
    (hf : ∀ op, P op → (f op).Only Q) : (p.lift f).Only Q := by
  induction p with
  | done a => trivial
  | call op k ih => exact (hf op h.1).bind fun r => ih r (h.2 r)

variable {exec : (op : Op) → σ → Res op × σ} {exec' : (op : Op') → σ' → Res' op × σ'}

/-- Run alone, the program does the same when every call is replaced by a program that does what
the call did on a part of a larger object, read by `view` and written by `put`. -/
theorem run_lift {view : σ' → σ} {put : σ' → σ → σ'} (view_put : ∀ s x, view (put s x) = x)
    (put_put : ∀ s x y, put (put s x) y = put s y) (put_view : ∀ s, put s (view s) = s)
    (hf : ∀ op s, (f op).run exec' s = ((exec op (view s)).1, put s (exec op (view s)).2))
    (p : Prog Op Res α) (s : σ') :
    (p.lift f).run exec' s = ((p.run exec (view s)).1, put s (p.run exec (view s)).2) := by
  induction p generalizing s with
  | done a => rw [lift_done, run_done, run_done, put_view]
  | call op k ih => rw [lift_call, run_bind, hf, ih, view_put, put_put, run_call]

end Lift

end Prog

/-! ## Interleaved execution -/

/-- The shared object, the threads under way and the results of the finished ones. -/
structure Pool (Op : Type) (Res : Op → Type) (σ τ α : Type) where
  shared : σ
  threads : List (τ × Prog Op Res α)
  finished : List (τ × α)

/-- How a system of threads is set up. -/
structure System (Op : Type) (Res : Op → Type) (σ τ α : Type) where
  /-- The effect of one atomic call. -/
  exec : (op : Op) → σ → Res op × σ
  /-- The auxiliary update of the caller's tag. -/
  note : τ → Op → σ → τ
  /-- The programs that may start, with the tag they start with. -/
  spawn : τ → Prog Op Res α → Prop
  /-- A restriction on calls: the calls a tag may make in a state. -/
  allowed : σ → τ → Op → Prop

variable (S : System Op Res σ τ α)

/-- One step: a thread starts, makes its next call, or hands in its result. -/
inductive Step : Pool Op Res σ τ α → Pool Op Res σ τ α → Prop
  | spawn {s ts fs} {t : τ} {p : Prog Op Res α} : S.spawn t p →
      Step ⟨s, ts, fs⟩ ⟨s, (t, p) :: ts, fs⟩
  | call {s l r fs} {t : τ} {op : Op} {k : Res op → Prog Op Res α} : S.allowed s t op →
      Step ⟨s, l ++ (t, .call op k) :: r, fs⟩
        ⟨(S.exec op s).2, l ++ (S.note t op s, k (S.exec op s).1) :: r, fs⟩
  | finish {s l r fs} {t : τ} {a : α} :
      Step ⟨s, l ++ (t, .done a) :: r, fs⟩ ⟨s, l ++ r, (t, a) :: fs⟩

/-- The pool `c'` is reached from `c` by some interleaving. -/
def Reaches : Pool Op Res σ τ α → Pool Op Res σ τ α → Prop :=
  Relation.ReflTransGen (Step S)

/-- Every call of the program is allowed, when it runs alone. -/
def Permitted (S : System Op Res σ τ α) : σ → τ → Prog Op Res β → Prop
  | _, _, .done _ => True
  | s, t, .call op k => S.allowed s t op ∧
      Permitted S (S.exec op s).2 (S.note t op s) (k (S.exec op s).1)

theorem Permitted.of_only {S : System Op Res σ τ α} {P : Op → Prop}
    (hP : ∀ s t op, P op → S.allowed s t op) {p : Prog Op Res β} (h : p.Only P) {s : σ} {t : τ} :
    Permitted S s t p := by
  induction p generalizing s t with
  | done a => trivial
  | call op k ih => exact ⟨hP s t op h.1, ih _ (h.2 _)⟩

/-- A thread may run to its end before anybody else moves. -/
theorem reaches_alone {s : σ} {t : τ} {p : Prog Op Res α} (h : Permitted S s t p)
    (ts : List (τ × Prog Op Res α)) (fs : List (τ × α)) :
    ∃ t', Reaches S ⟨s, (t, p) :: ts, fs⟩
      ⟨(p.run S.exec s).2, ts, (t', (p.run S.exec s).1) :: fs⟩ := by
  induction p generalizing s t with
  | done a => exact ⟨t, .single (.finish (l := []))⟩
  | call op k ih =>
      rcases ih _ h.2 with ⟨t', hrest⟩
      exact ⟨t', .head (.call (l := []) h.1) hrest⟩

/-! ## Rely and guarantee -/

/-- What every thread may rely on and has to guarantee: an invariant of the shared object, and a
preorder along which the object moves. -/
structure Rely (σ : Type) where
  inv : σ → Prop
  moves : σ → σ → Prop
  moves_refl : ∀ s, moves s s
  moves_trans : ∀ {s s' s''}, moves s s' → moves s' s'' → moves s s''

variable {S} {R : Rely σ}

/-- However the others move the object in between, the allowed calls of the program keep the
invariant and the preorder, and its result satisfies `post` from then on. -/
def Secure (S : System Op Res σ τ α) (R : Rely σ) (post : σ → τ → β → Prop) :
    σ → τ → Prog Op Res β → Prop
  | s, t, .done a => ∀ s', R.moves s s' → R.inv s' → post s' t a
  | s, t, .call op k => ∀ s', R.moves s s' → R.inv s' → S.allowed s' t op →
      R.inv (S.exec op s').2 ∧ R.moves s' (S.exec op s').2 ∧
        Secure S R post (S.exec op s').2 (S.note t op s') (k (S.exec op s').1)

namespace Secure

variable {post : σ → τ → β → Prop}

/-- Security is kept by whatever the others do. -/
theorem mono {s s' : σ} {t : τ} {p : Prog Op Res β} (hm : R.moves s s')
    (h : Secure S R post s t p) : Secure S R post s' t p := by
  cases p with
  | done a => exact fun s'' hm' hinv => h s'' (R.moves_trans hm hm') hinv
  | call op k => exact fun s'' hm' hinv hok => h s'' (R.moves_trans hm hm') hinv hok

/-- It is enough to look at the later objects that satisfy the invariant. -/
theorem later {s : σ} {t : τ} {p : Prog Op Res β}
    (h : ∀ s', R.moves s s' → R.inv s' → Secure S R post s' t p) : Secure S R post s t p := by
  cases p with
  | done a => exact fun s' hm hinv => h s' hm hinv s' (R.moves_refl s') hinv
  | call op k => exact fun s' hm hinv hok => h s' hm hinv s' (R.moves_refl s') hinv hok

/-- A call that only reads. -/
theorem read {s : σ} {t : τ} {op : Op} {k : Res op → Prog Op Res β}
    (hread : ∀ s, (S.exec op s).2 = s)
    (h : ∀ s', R.moves s s' → R.inv s' →
      Secure S R post s' (S.note t op s') (k (S.exec op s').1)) :
    Secure S R post s t (.call op k) := by
  intro s' hm hinv _
  rw [hread s']
  exact ⟨hinv, R.moves_refl s', h s' hm hinv⟩

/-- A result that satisfies `post` satisfies what follows from it. -/
theorem imp {post' : σ → τ → β → Prop} {p : Prog Op Res β} {s : σ} {t : τ}
    (h : Secure S R post s t p)
    (himp : ∀ s' t' a, R.moves s s' → R.inv s' → post s' t' a → post' s' t' a) :
    Secure S R post' s t p := by
  induction p generalizing s t with
  | done a => exact fun s' hm hinv => himp s' t a hm hinv (h s' hm hinv)
  | call op k ih =>
      intro s' hm hinv hok
      obtain ⟨hinv', hm', hk⟩ := h s' hm hinv hok
      refine ⟨hinv', hm', ih _ hk fun s'' t' a hm'' => ?_⟩
      exact himp s'' t' a (R.moves_trans hm (R.moves_trans hm' hm''))

/-- Sequencing. -/
theorem bind {γ : Type} {post' : σ → τ → γ → Prop} {f : β → Prog Op Res γ}
    {p : Prog Op Res β} {s : σ} {t : τ} (h : Secure S R post s t p)
    (hf : ∀ s' t' a, R.moves s s' → R.inv s' → post s' t' a → Secure S R post' s' t' (f a)) :
    Secure S R post' s t (p >>= f) := by
  induction p generalizing s t with
  | done a => exact later fun s' hm hinv => hf s' t a hm hinv (h s' hm hinv)
  | call op k ih =>
      intro s' hm hinv hok
      obtain ⟨hinv', hm', hk⟩ := h s' hm hinv hok
      refine ⟨hinv', hm', ih _ hk fun s'' t' a hm'' => ?_⟩
      exact hf s'' t' a (R.moves_trans hm (R.moves_trans hm' hm''))

end Secure

/-- The invariant, and the security of every thread and result of a pool. -/
structure Holds (S : System Op Res σ τ α) (R : Rely σ) (post : σ → τ → α → Prop)
    (c : Pool Op Res σ τ α) : Prop where
  shared : R.inv c.shared
  threads : ∀ x ∈ c.threads, Secure S R post c.shared x.1 x.2
  finished : ∀ x ∈ c.finished, ∀ s', R.moves c.shared s' → R.inv s' → post s' x.1 x.2

namespace Holds

variable {post : σ → τ → α → Prop}

/-- A pool in which nothing has started. -/
theorem initial {s : σ} (h : R.inv s) : Holds S R post ⟨s, [], []⟩ :=
  ⟨h, by simp, by simp⟩

/-- One step keeps everything and moves the object along the preorder. -/
theorem step (hspawn : ∀ {s t p}, R.inv s → S.spawn t p → Secure S R post s t p)
    {c c' : Pool Op Res σ τ α} (h : Holds S R post c) (hs : Step S c c') :
    Holds S R post c' ∧ R.moves c.shared c'.shared := by
  cases hs with
  | spawn hstart =>
      refine ⟨⟨h.shared, ?_, h.finished⟩, R.moves_refl _⟩
      intro x hx
      rcases List.mem_cons.1 hx with rfl | hx
      · exact hspawn h.shared hstart
      · exact h.threads x hx
  | @call s l r fs t op k hallowed =>
      have hself : Secure S R post s t (.call op k) := h.threads (t, .call op k) (by simp)
      obtain ⟨hinv, hmoves, hnext⟩ := hself s (R.moves_refl s) h.shared hallowed
      refine ⟨⟨hinv, ?_, ?_⟩, hmoves⟩
      · intro x hx
        -- the caller goes on, the others are secure whatever it did
        rcases List.mem_append.1 hx with hl | hr
        · exact (h.threads x (List.mem_append_left _ hl)).mono hmoves
        · rcases List.mem_cons.1 hr with rfl | hr
          · exact hnext
          · exact (h.threads x
              (List.mem_append_right _ (List.mem_cons_of_mem _ hr))).mono hmoves
      · exact fun x hx s' hm => h.finished x hx s' (R.moves_trans hmoves hm)
  | @finish s l r fs t a =>
      have hself : Secure S R post s t (.done a) := h.threads (t, .done a) (by simp)
      refine ⟨⟨h.shared, ?_, ?_⟩, R.moves_refl _⟩
      · intro x hx
        refine h.threads x ?_
        rcases List.mem_append.1 hx with hl | hr
        · exact List.mem_append_left _ hl
        · exact List.mem_append_right _ (List.mem_cons_of_mem _ hr)
      · intro x hx
        rcases List.mem_cons.1 hx with rfl | hx
        · exact hself
        · exact h.finished x hx

/-- Every interleaving keeps everything and moves the object along the preorder. -/
theorem reachable (hspawn : ∀ {s t p}, R.inv s → S.spawn t p → Secure S R post s t p)
    {c c' : Pool Op Res σ τ α} (h : Holds S R post c) (hr : Reaches S c c') :
    Holds S R post c' ∧ R.moves c.shared c'.shared := by
  induction hr with
  | refl => exact ⟨h, R.moves_refl _⟩
  | tail _ hstep ih =>
      obtain ⟨hmid, hmoves⟩ := ih
      obtain ⟨hlast, hmoves'⟩ := step hspawn hmid hstep
      exact ⟨hlast, R.moves_trans hmoves hmoves'⟩

end Holds

end AtomicProg
