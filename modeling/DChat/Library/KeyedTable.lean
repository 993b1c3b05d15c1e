import Mathlib.Data.List.Nodup
import Mathlib.Data.List.Infix

/-!
# KeyedTable — tables with an increasing row id and one unique column

A `Table key` is a list of rows, each under a row id.  The ids increase in insertion order
and never exceed the counter `seq`, which only grows, and no two rows have the same value in
the column `key`.  The three facts are fields, so every table that exists has them.

`insert` appends a row under a fresh id and refuses a row whose key is taken; `deleteWhere`
drops the rows that match.  Since the ids increase, the rows from an id on are an end of the list.
-/

namespace KeyedTable

/-- A table of rows `ρ` whose column `key` is unique. -/
structure Table {ρ κ : Type} (key : ρ → κ) where
  rows : List (Nat × ρ)
  /-- The largest row id given out so far. -/
  seq : Nat
  ids_increasing : (rows.map Prod.fst).Pairwise (· < ·)
  ids_le_seq : ∀ x ∈ rows, x.1 ≤ seq
  keys_nodup : (rows.map fun x => key x.2).Nodup

namespace Table

variable {ρ κ : Type} {key : ρ → κ}

/-- The empty table. -/
def empty : Table key where
  rows := []
  seq := 0
  ids_increasing := by simp
  ids_le_seq := by simp
  keys_nodup := by simp

/-- The rows in insertion order, without their ids. -/
def data (t : Table key) : List ρ := t.rows.map Prod.snd

@[simp] theorem data_empty : (empty : Table key).data = [] := rfl

theorem data_keys_nodup (t : Table key) : (t.data.map key).Nodup := by
  simpa [data, List.map_map, Function.comp_def] using t.keys_nodup

/-- Rows with one key are one row. -/
theorem eq_of_key_eq {t : Table key} {r r' : ρ} (h : r ∈ t.data) (h' : r' ∈ t.data)
    (hkey : key r = key r') : r = r' :=
  List.inj_on_of_nodup_map t.data_keys_nodup h h' hkey

/-- The key of the row is not in the table yet. -/
def Fresh (t : Table key) (r : ρ) : Prop := ∀ x ∈ t.data, key x ≠ key r

theorem mem_keys_iff {t : Table key} {r : ρ} :
    key r ∈ t.rows.map (fun x => key x.2) ↔ ¬ t.Fresh r := by
  simp only [Fresh, data, List.mem_map, not_forall, not_not, exists_prop]
  constructor
  · rintro ⟨x, hx, hkey⟩
    exact ⟨x.2, ⟨x, hx, rfl⟩, hkey⟩
  · rintro ⟨_, ⟨x, hx, rfl⟩, hkey⟩
    exact ⟨x, hx, hkey⟩

/-! ## Deletion -/

/-- Drop the rows that match. -/
def deleteWhere (t : Table key) (p : Nat × ρ → Bool) : Table key where
  rows := t.rows.filter fun x => !p x
  seq := t.seq
  ids_increasing := t.ids_increasing.sublist (List.filter_sublist.map _)
  ids_le_seq := fun x hx => t.ids_le_seq x (List.mem_of_mem_filter hx)
  keys_nodup := (List.filter_sublist.map _).nodup t.keys_nodup

theorem data_deleteWhere (t : Table key) (p : ρ → Bool) :
    (t.deleteWhere fun x => p x.2).data = t.data.filter fun r => !p r := by
  simp [deleteWhere, data, List.filter_map, Function.comp_def]

theorem deleteWhere_deleteWhere (t : Table key) (p : Nat × ρ → Bool) :
    (t.deleteWhere p).deleteWhere p = t.deleteWhere p := by
  simp [deleteWhere, List.filter_filter]

/-! ## Insertion -/

variable [DecidableEq κ]

/-- Append a row under the next id; a taken key leaves the table as it is. -/
def insert (t : Table key) (r : ρ) : Table key × Bool :=
  if h : key r ∈ t.rows.map (fun x => key x.2) then
    (t, false)
  else
    ({ rows := t.rows ++ [(t.seq + 1, r)]
       seq := t.seq + 1
       ids_increasing := by
         simp only [List.map_append, List.map_cons, List.map_nil, List.pairwise_append,
           List.pairwise_singleton, List.mem_singleton, List.mem_map, true_and]
         refine ⟨t.ids_increasing, ?_⟩
         rintro i ⟨x, hx, rfl⟩ j rfl
         exact Nat.lt_succ_of_le (t.ids_le_seq x hx)
       ids_le_seq := by
         intro x hx
         rcases List.mem_append.1 hx with hx | hx
         · exact Nat.le_succ_of_le (t.ids_le_seq x hx)
         · simp only [List.mem_singleton] at hx
           simp [hx]
       keys_nodup := by
         simp only [List.map_append, List.map_cons, List.map_nil]
         refine List.Nodup.append t.keys_nodup (List.nodup_singleton _) ?_
         simpa using h }, true)

theorem insert_of_fresh {t : Table key} {r : ρ} (h : t.Fresh r) :
    (t.insert r).1.rows = t.rows ++ [(t.seq + 1, r)] ∧ (t.insert r).2 = true := by
  have hkey : key r ∉ t.rows.map (fun x => key x.2) := fun hmem => mem_keys_iff.1 hmem h
  rw [insert, dif_neg hkey]
  exact ⟨rfl, rfl⟩

theorem insert_of_not_fresh {t : Table key} {r : ρ} (h : ¬ t.Fresh r) :
    t.insert r = (t, false) := by
  rw [insert, dif_pos (mem_keys_iff.2 h)]

theorem data_insert_of_fresh {t : Table key} {r : ρ} (h : t.Fresh r) :
    (t.insert r).1.data = t.data ++ [r] := by
  simp [data, (insert_of_fresh h).1]

/-- An insertion succeeds exactly on a fresh key. -/
theorem insert_snd {t : Table key} {r : ρ} : (t.insert r).2 = true ↔ t.Fresh r := by
  by_cases h : t.Fresh r
  · simp [h, (insert_of_fresh h).2]
  · simp [h, insert_of_not_fresh h]

/-- An insertion appends the row or changes nothing. -/
theorem data_insert (t : Table key) (r : ρ) :
    (t.insert r).1.data = t.data ++ [r] ∨ (t.insert r).1.data = t.data := by
  by_cases h : t.Fresh r
  · exact Or.inl (data_insert_of_fresh h)
  · exact Or.inr (by rw [insert_of_not_fresh h])

theorem data_prefix_insert (t : Table key) (r : ρ) : t.data <+: (t.insert r).1.data := by
  rcases data_insert t r with h | h
  · exact h ▸ List.prefix_append _ _
  · rw [h]

/-- After an insertion the key is in the table, whether the row was stored or refused. -/
theorem exists_key_insert (t : Table key) (r : ρ) :
    ∃ x ∈ (t.insert r).1.data, key x = key r := by
  by_cases h : t.Fresh r
  · exact ⟨r, by simp [data_insert_of_fresh h], rfl⟩
  · rw [insert_of_not_fresh h]
    simpa [Fresh] using h

/-- A row that was inserted, or refused, is refused from then on. -/
theorem insert_insert (t : Table key) (r : ρ) :
    (t.insert r).1.insert r = ((t.insert r).1, false) := by
  apply insert_of_not_fresh
  rcases exists_key_insert t r with ⟨x, hx, hkey⟩
  exact fun hfresh => hfresh x hx hkey

end Table

/-! ## Ranges of row ids -/

section Ids

variable {ρ : Type} {rows : List (Nat × ρ)}

/-- How many rows have an id below `b`. -/
def countBelow (rows : List (Nat × ρ)) (b : Nat) : Nat := rows.countP fun x => x.1 < b

/-- The ids increase, so the rows from an id on are the end of the list. -/
theorem filter_from (h : (rows.map Prod.fst).Pairwise (· < ·)) (b : Nat) :
    rows.filter (fun x => b ≤ x.1) = rows.drop (countBelow rows b) := by
  induction rows with
  | nil => rfl
  | cons x xs ih =>
      rw [List.map_cons, List.pairwise_cons] at h
      rcases h with ⟨hfirst, hrest⟩
      by_cases hx : x.1 < b
      · rw [countBelow, List.countP_cons_of_pos (by simpa using hx), List.drop_succ_cons,
          List.filter_cons_of_neg (by simpa using hx)]
        exact ih hrest
      · -- nothing after `x` is below `b` either
        have hall : ∀ y ∈ x :: xs, b ≤ y.1 := by
          intro y hy
          rcases List.mem_cons.1 hy with rfl | hmem
          · exact Nat.le_of_not_lt hx
          · have hlt := hfirst y.1 (List.mem_map_of_mem hmem)
            omega
        have hnone : countBelow (x :: xs) b = 0 := by
          rw [countBelow, List.countP_eq_zero]
          intro y hy
          simpa using hall y hy
        rw [hnone, List.drop_zero, List.filter_eq_self]
        simpa using hall

theorem countBelow_succ (rows : List (Nat × ρ)) (b : Nat) :
    countBelow rows (b + 1) = countBelow rows b + (rows.map Prod.fst).count b := by
  induction rows with
  | nil => rfl
  | cons x xs ih =>
      have hone : (if x.1 < b + 1 then 1 else 0) =
          (if x.1 < b then 1 else 0) + if x.1 = b then 1 else 0 := by
        split_ifs <;> omega
      simp only [countBelow, List.countP_cons, List.map_cons, List.count_cons, decide_eq_true_eq,
        beq_iff_eq] at ih ⊢
      rw [ih, hone]
      omega

/-- `d` ids belong to at most `d` rows. -/
theorem countBelow_add_le (h : (rows.map Prod.fst).Pairwise (· < ·)) (b d : Nat) :
    countBelow rows (b + d) ≤ countBelow rows b + d := by
  induction d with
  | zero => exact le_rfl
  | succ d ih =>
      have hnodup : (rows.map Prod.fst).Nodup := h.imp fun hlt => Nat.ne_of_lt hlt
      have hone := List.nodup_iff_count_le_one.1 hnodup (b + d)
      calc countBelow rows (b + (d + 1))
          = countBelow rows (b + d) + (rows.map Prod.fst).count (b + d) := countBelow_succ rows _
        _ ≤ countBelow rows b + (d + 1) := by omega

end Ids
end KeyedTable
