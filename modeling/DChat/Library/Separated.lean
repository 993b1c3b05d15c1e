import Mathlib.Data.List.Basic
import Mathlib.Algebra.BigOperators.Group.List.Basic
import Mathlib.Algebra.GroupWithZero.Nat

/-!
# Separated — fields joined by a separator

Joining fields that may themselves hold the separator forgets where they end.  What it forgets is
only how many separators each field has: with these numbers the fields can be read back.
-/

namespace Separated

variable {α : Type} [DecidableEq α] {x : α}

/-- A list is split at a separator in one way only, once it is known how many come before. -/
theorem append_cons_inj {a b c d : List α} (hcount : a.count x = c.count x)
    (h : a ++ x :: b = c ++ x :: d) : a = c ∧ b = d := by
  induction a generalizing c with
  | nil =>
      cases c with
      | nil => exact ⟨rfl, List.tail_eq_of_cons_eq h⟩
      | cons z zs =>
          have hz : x = z := List.head_eq_of_cons_eq h
          simp [← hz] at hcount
  | cons y ys ih =>
      cases c with
      | nil =>
          have hy : y = x := List.head_eq_of_cons_eq h
          simp [hy] at hcount
      | cons z zs =>
          have hyz : y = z := List.head_eq_of_cons_eq h
          have htail : ys ++ x :: b = zs ++ x :: d := List.tail_eq_of_cons_eq h
          have hrest : ys.count x = zs.count x := by
            simpa [List.count_cons, hyz] using hcount
          rcases ih hrest htail with ⟨hys, hbd⟩
          exact ⟨by rw [hyz, hys], hbd⟩

/-- Joined fields with as many separators in each are the same fields. -/
theorem intercalate_inj {fs gs : List (List α)} (hlength : fs.length = gs.length)
    (hcount : fs.map (List.count x) = gs.map (List.count x))
    (h : [x].intercalate fs = [x].intercalate gs) : fs = gs := by
  induction fs generalizing gs with
  | nil =>
      have hgs : gs = [] := List.eq_nil_of_length_eq_zero hlength.symm
      rw [hgs]
  | cons f fs ih =>
      cases gs with
      | nil => cases hlength
      | cons g gs =>
          rw [List.map_cons, List.map_cons, List.cons_eq_cons] at hcount
          rcases hcount with ⟨hhead, hrest⟩
          have htail : fs.length = gs.length := Nat.succ.inj hlength
          cases fs with
          | nil =>
              have hgs : gs = [] := List.eq_nil_of_length_eq_zero htail.symm
              subst hgs
              simpa using h
          | cons f' fs =>
              cases gs with
              | nil => cases htail
              | cons g' gs =>
                  rw [List.intercalate_cons_cons, List.intercalate_cons_cons, List.append_assoc,
                    List.append_assoc] at h
                  rcases append_cons_inj hhead h with ⟨hfg, hjoined⟩
                  rw [hfg, ih htail hrest hjoined]

/-- The separators of a joined list are those of the fields and those between them. -/
theorem count_intercalate {fs : List (List α)} (hne : fs ≠ []) :
    ([x].intercalate fs).count x + 1 = (fs.map (List.count x)).sum + fs.length := by
  induction fs with
  | nil => exact absurd rfl hne
  | cons f fs ih =>
      cases fs with
      | nil => simp
      | cons g gs =>
          have hrest := ih (by simp)
          rw [List.intercalate_cons_cons, List.count_append, List.count_append,
            List.count_singleton_self, List.map_cons, List.sum_cons, List.length_cons]
          omega

/-- What precedes the first separator, cut where `p` ends, is cut in the same place when the rest
is there. -/
theorem takeWhile_append_cons {p : α → Bool} (l r : List α) (h : x ∉ l.takeWhile p) :
    (l ++ x :: r).takeWhile (fun c => p c && c ≠ x) = l.takeWhile p := by
  induction l with
  | nil => simp
  | cons c l ih =>
      cases hp : p c with
      | false => simp [hp]
      | true =>
          rw [List.takeWhile_cons_of_pos hp, List.mem_cons, not_or] at h
          have hne : decide (c ≠ x) = true := decide_eq_true (Ne.symm h.1)
          rw [List.cons_append, List.takeWhile_cons_of_pos (by rw [hp, hne]; rfl), ih h.2,
            List.takeWhile_cons_of_pos hp]

/-- A list in which every field ends with a separator splits into the pieces of the fields, and
something empty behind the last separator. -/
theorem splitOn_flatMap_append (fs : List (List α)) :
    (fs.flatMap fun f => f ++ [x]).splitOn x = (fs.flatMap fun f => f.splitOn x) ++ [[]] := by
  induction fs with
  | nil => rfl
  | cons f fs ih =>
      rw [List.flatMap_cons, List.flatMap_cons, List.append_assoc, List.append_assoc,
        List.singleton_append, List.splitOn_append_cons_self, ih]

theorem notMem_of_mem_splitOn {l f : List α} (hf : f ∈ l.splitOn x) : x ∉ f := by
  induction l generalizing f with
  | nil =>
      rw [List.splitOn_nil, List.mem_singleton] at hf
      simp [hf]
  | cons c l ih =>
      rw [List.splitOn_cons_eq_if_modifyHead] at hf
      obtain ⟨first, rest, hsplit⟩ := List.exists_cons_of_ne_nil (List.splitOn_ne_nil x l)
      rw [hsplit] at hf ih
      split at hf
      · rcases List.mem_cons.1 hf with rfl | hmem
        · exact List.not_mem_nil
        · exact ih hmem
      · rename_i hne
        rcases List.mem_cons.1 hf with rfl | hmem
        · have hfirst := ih (List.mem_cons_self ..)
          have hc : x ≠ c := fun heq => hne (beq_iff_eq.2 heq.symm)
          simp [hfirst, hc]
        · exact ih (List.mem_cons_of_mem _ hmem)

/-- Fields that end with separators are read back if and only if none of them holds one. -/
theorem splitOn_fields_iff {fs : List (List α)} :
    (fs.flatMap fun f => f ++ [x]).splitOn x = fs ++ [[]] ↔ ∀ f ∈ fs, x ∉ f := by
  rw [splitOn_flatMap_append, List.append_cancel_right_eq]
  constructor
  · intro h f hf
    rw [← h, List.mem_flatMap] at hf
    obtain ⟨g, -, hmem⟩ := hf
    exact notMem_of_mem_splitOn hmem
  · intro h
    have hsingle : (fs.flatMap fun f => f.splitOn x) = fs.flatMap fun f => [f] :=
      List.flatMap_congr fun f hf => List.splitOn_eq_singleton (h f hf)
    rw [hsingle]
    simp

end Separated
