import DChat.ChainDB
import DChat.Library.Paging

/-!
# BlockRows — the rows after a known block

`getBlocksByIndexRange` and `countBlocksAfterHash` look up the row of a hash and go on with its id.
The ids increase in insertion order, so a larger id is a later row.  Whether the ids are consecutive
is another question, which the two functions answer differently.
-/

namespace DChat
namespace Blockchain
namespace ChainDB

open Utils KeyedTable

theorem length_loadAllBlocks (t : BlockTable) : (loadAllBlocks t).length = t.rows.length := by
  simp [loadAllBlocks, Table.data]

/-- A page of all blocks. -/
theorem getBlocksByIndexRange_zero (t : BlockTable) (start batch : UInt32) :
    getBlocksByIndexRange t start batch "0" =
      Paging.page batch.toNat (loadAllBlocks t) start.toNat := by
  simp [getBlocksByIndexRange, Paging.page, loadAllBlocks, List.map_take, List.map_drop]

theorem countBlocksAfterHash_zero {t : BlockTable} (hlen : t.rows.length < 2 ^ 32) :
    (countBlocksAfterHash t "0").toNat = t.rows.length := by
  simp only [countBlocksAfterHash, if_true]
  rw [UInt32.toNat_ofNat', Nat.mod_eq_of_lt hlen]

/-- The rows whose id is above `a` and at most `b`. -/
def rowsWithin (t : BlockTable) (a b : Nat) : List (Nat × BlockRow) :=
  t.rows.filter fun y => a < y.1 ∧ y.1 ≤ b

/-- The row of the hash, between the rows before it and the rows after it. -/
structure RowAt (t : BlockTable) (hash : String) (front : List (Nat × BlockRow))
    (x : Nat × BlockRow) (after : List (Nat × BlockRow)) : Prop where
  split : t.rows = front ++ x :: after
  named : x.2.hash = .bind hash
  others : ∀ y ∈ front, y.2.hash ≠ .bind hash

variable {t : BlockTable} {hash : String} {front after : List (Nat × BlockRow)}
  {x : Nat × BlockRow}

theorem exists_rowAt (hfind : t.rows.find? (fun y => y.2.hash = .bind hash) = some x) :
    ∃ front after, RowAt t hash front x after := by
  rcases List.find?_eq_some_iff_append.1 hfind with ⟨hx, front, after, hsplit, hfront⟩
  exact ⟨front, after, hsplit, by simpa using hx, by simpa using hfront⟩

theorem RowAt.find? (h : RowAt t hash front x after) :
    t.rows.find? (fun y => y.2.hash = .bind hash) = some x :=
  List.find?_eq_some_iff_append.2
    ⟨by simpa using h.named, front, after, h.split, by simpa using h.others⟩

/-- The row of a stored block.  No earlier one has its hash, since the column is unique. -/
theorem rowAt_of_load {A B : List Block} {b : Block} (hload : loadAllBlocks t = A ++ b :: B) :
    ∃ front x after, RowAt t b.hash front x after ∧ front.length = A.length ∧
      (after.map fun y => y.2.toBlock) = B := by
  have hrows : t.rows.map (fun y => y.2.toBlock) = A ++ b :: B := by
    rw [← hload, loadAllBlocks, Table.data, List.map_map]
    rfl
  rcases List.map_eq_append_iff.1 hrows with ⟨front, rest, hsplit, hA, hrest⟩
  rcases List.map_eq_cons_iff.1 hrest with ⟨x, after, hr, hx, hB⟩
  have hnul : NoNul b.hash :=
    (storable_of_mem (by rw [hload]; simp : b ∈ loadAllBlocks t)).hash
  -- SQL compares the stored text with the bound hash, up to its first NUL
  have hbind : ∀ y : Nat × BlockRow, y.2.hash = .bind b.hash ↔ y.2.toBlock.hash = b.hash := by
    intro y
    rw [DbText.eq_bind_iff, cString_of_noNul hnul, BlockRow.toBlock_hash]
  refine ⟨front, x, after, ⟨hr ▸ hsplit, (hbind x).2 (congrArg Block.hash hx), ?_⟩, ?_, hB⟩
  · -- the hash column is unique, so no earlier row answers the query
    intro y hy heq
    have hnodup := hashes_nodup t
    rw [hload, List.map_append, List.nodup_append'] at hnodup
    have hmem : y.2.toBlock ∈ A := hA ▸ List.mem_map_of_mem hy
    have hhash : y.2.toBlock.hash ∈ (b :: B).map Block.hash := by
      rw [(hbind y).1 heq]
      exact List.mem_map_of_mem List.mem_cons_self
    exact hnodup.2.2 (List.mem_map_of_mem hmem) hhash
  · rw [← hA, List.length_map]

namespace RowAt

theorem ids_increasing_after (h : RowAt t hash front x after) :
    (after.map Prod.fst).Pairwise (· < ·) := by
  have hinc := t.ids_increasing
  rw [h.split, List.map_append, List.map_cons, List.pairwise_append, List.pairwise_cons] at hinc
  exact hinc.2.1.2

theorem nodup_after (h : RowAt t hash front x after) :
    (after.map fun y => y.2.toBlock).Nodup := by
  have hall : (loadAllBlocks t).Nodup := (hashes_nodup t).of_map _
  rw [loadAllBlocks, Table.data, List.map_map, h.split, List.map_append, List.map_cons] at hall
  exact (List.nodup_cons.1 hall.of_append_right).2

/-- The ids increase, so the rows after the known one are those with a larger id. -/
theorem filter_after (h : RowAt t hash front x after) :
    (t.rows.filter fun y => x.1 < y.1) = after := by
  have hinc := t.ids_increasing
  rw [h.split, List.map_append, List.map_cons, List.pairwise_append, List.pairwise_cons] at hinc
  rcases hinc with ⟨_, ⟨hlarger, _⟩, hsmaller⟩
  have hfront : ∀ y ∈ front, ¬ x.1 < y.1 := by
    intro y hy
    exact Nat.lt_asymm (hsmaller y.1 (List.mem_map_of_mem hy) x.1 List.mem_cons_self)
  have hafter : ∀ y ∈ after, x.1 < y.1 := fun y hy => hlarger y.1 (List.mem_map_of_mem hy)
  rw [h.split, List.filter_append, List.filter_eq_nil_iff.2 (by simpa using hfront),
    List.filter_cons_of_neg (by simp), List.filter_eq_self.2 (by simpa using hafter),
    List.nil_append]

/-- A condition that only later rows meet is looked for among them. -/
theorem filter_rows (h : RowAt t hash front x after) {p : Nat → Bool}
    (hlater : ∀ i, p i = true → x.1 < i) :
    (t.rows.filter fun y => p y.1) = after.filter fun y => p y.1 := by
  calc (t.rows.filter fun y => p y.1)
      = (t.rows.filter fun y => x.1 < y.1).filter fun y => p y.1 := by
        rw [List.filter_filter]
        apply List.filter_congr
        intro y _
        cases hp : p y.1 with
        | false => rfl
        | true => simp [hlater y.1 hp]
    _ = after.filter fun y => p y.1 := by rw [h.filter_after]

/-- A page is made of the later rows with an id from `id + 1 + start` on. -/
theorem getBlocksByIndexRange_eq (h : RowAt t hash front x after) (hne : hash ≠ "0")
    (hid : x.1 < 2 ^ 63) (start k : UInt32) :
    getBlocksByIndexRange t start k hash =
      ((after.filter fun y => x.1 + 1 + start.toNat ≤ y.1).take k.toNat).map
        fun y => y.2.toBlock := by
  -- the sum is made in 64 bits
  have hstart : (UInt64.ofNat x.1 + 1 + start.toUInt64).toNat = x.1 + 1 + start.toNat := by
    have hs := start.toNat_lt
    have hone : (1 : UInt64).toNat = 1 := rfl
    rw [UInt64.toNat_add, UInt64.toNat_add, UInt64.toNat_ofNat', UInt32.toNat_toUInt64, hone]
    omega
  have hrows := h.filter_rows (p := fun i => decide (x.1 + 1 + start.toNat ≤ i)) (by
    intro i hi
    have hle := of_decide_eq_true hi
    omega)
  simp only [getBlocksByIndexRange, hne, if_false, h.find?, hstart]
  rw [hrows]

/-- Rows with an id above the cut one come before the known block or after it. -/
theorem length_filter_cut (h : RowAt t hash front x after) :
    (t.rows.filter fun y => x.1 % 2 ^ 32 < y.1).length =
      (rowsWithin t (x.1 % 2 ^ 32) x.1).length + after.length := by
  have hmod : x.1 % 2 ^ 32 ≤ x.1 := Nat.mod_le _ _
  rw [List.length_eq_length_filter_add fun y => y.1 ≤ x.1, List.filter_filter,
    List.filter_filter, ← h.filter_after, rowsWithin]
  congr 3
  · funext y
    rw [← Bool.decide_and]
    exact decide_eq_decide.2 And.comm
  · funext y
    rw [← decide_not, ← Bool.decide_and]
    exact decide_eq_decide.2 (by omega)

/-- The count is cut twice: the id before it is compared, and the number of rows. -/
theorem countBlocksAfterHash_eq (h : RowAt t hash front x after) (hne : hash ≠ "0") :
    (countBlocksAfterHash t hash).toNat =
      ((rowsWithin t (x.1 % 2 ^ 32) x.1).length + after.length) % 2 ^ 32 := by
  simp only [countBlocksAfterHash, hne, if_false, h.find?]
  rw [UInt32.toNat_ofNat', UInt32.toNat_ofNat', h.length_filter_cut]

end RowAt

end ChainDB
end Blockchain
end DChat
