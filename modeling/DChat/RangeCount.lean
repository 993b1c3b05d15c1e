import DChat.Sync

/-!
# RangeCount — does a peer send as many blocks as it counts?

`countBlocksAfterHash` counts rows, `getBlocksByIndexRange` computes with row ids: the page at
`start` begins at the id of the known block plus `1 + start`.  With a gap in the ids, the pages
start too early and blocks are sent twice.  For an unknown hash the count is that of the whole
table, and the pages are empty.
-/

namespace DChat
namespace Blockchain
namespace ChainDB

open Utils KeyedTable

/-- The blocks that lie after the hash: all of them, when it is the marker or not known. -/
def blocksAfter (t : BlockTable) (hash : String) : List Block :=
  if hash = "0" then
    loadAllBlocks t
  else
    match t.rows.dropWhile fun x => x.2.hash ≠ .bind hash with
    | [] => loadAllBlocks t
    | _ :: after => after.map fun y => y.2.toBlock

/-- The pages at `0`, `k`, `2k` and so on, below the count. -/
def allPages (t : BlockTable) (hash : String) (k : UInt32) : List Block :=
  (Paging.starts k.toNat (Paging.pages k.toNat (countBlocksAfterHash t hash).toNat)).flatMap
    fun start => getBlocksByIndexRange t (UInt32.ofNat start) k hash

/-- The pages are the blocks after the hash, and as many as counted. -/
structure PagesAgree (t : BlockTable) (hash : String) (k : UInt32) : Prop where
  blocks : allPages t hash k = blocksAfter t hash
  length : (allPages t hash k).length = (countBlocksAfterHash t hash).toNat

/-- For a known block under the row id `id`, with `m` blocks after it: they can be counted, the
id is not cut when it is compared, and no id is missing in front of the last page. -/
structure CountableFrom (t : BlockTable) (id m : Nat) (k : UInt32) : Prop where
  few : m < 2 ^ 32
  uncut : 2 ^ 32 ∣ (rowsWithin t (id % 2 ^ 32) id).length
  noGap : (rowsWithin t id (id + k.toNat * (Paging.pages k.toNat m - 1))).length =
    k.toNat * (Paging.pages k.toNat m - 1)

/-- When the two functions agree. -/
def Countable (t : BlockTable) (hash : String) (k : UInt32) : Prop :=
  if hash = "0" then
    t.rows.length < 2 ^ 32
  else
    match t.rows.find? fun x => x.2.hash = .bind hash with
    | none => t.rows = []
    | some x => CountableFrom t x.1 (t.rows.filter fun y => x.1 < y.1).length k

/-! ## The marker and unknown hashes -/

/-- The starts are below the count, so the pages are asked for where they start. -/
theorem allPages_eq {t : BlockTable} {hash : String} {k : UInt32} (hk : 0 < k.toNat)
    (pageAt : Nat → List Block)
    (hpage : ∀ start : UInt32, getBlocksByIndexRange t start k hash = pageAt start.toNat) :
    allPages t hash k = (Paging.starts k.toNat
      (Paging.pages k.toNat (countBlocksAfterHash t hash).toNat)).flatMap pageAt := by
  apply List.flatMap_congr
  intro s hs
  rw [hpage, BlockchainService.toNat_of_mem_starts hk (UInt32.toNat_lt _) hs]

theorem pagesAgree_zero_iff {t : BlockTable} {k : UInt32} (hk : 0 < k.toNat) :
    PagesAgree t "0" k ↔ t.rows.length < 2 ^ 32 := by
  have hafter : blocksAfter t "0" = loadAllBlocks t := by simp [blocksAfter]
  constructor
  · intro h
    have hcount := h.length
    rw [h.blocks, hafter, length_loadAllBlocks] at hcount
    rw [hcount]
    exact UInt32.toNat_lt _
  · intro hfew
    have hcount := countBlocksAfterHash_zero hfew
    have hall : allPages t "0" k = loadAllBlocks t := by
      rw [allPages_eq hk (Paging.page k.toNat (loadAllBlocks t)) fun start =>
          getBlocksByIndexRange_zero t start k, hcount, Paging.flatMap_page]
      apply List.take_of_length_le
      rw [length_loadAllBlocks]
      exact (Paging.pages_spec _ hk).1
    exact ⟨hall.trans hafter.symm, by rw [hall, length_loadAllBlocks, hcount]⟩

/-- An unknown hash gets the count of the whole table and no block. -/
theorem pagesAgree_unknown_iff {t : BlockTable} {hash : String} {k : UInt32} (hne : hash ≠ "0")
    (hunknown : t.rows.find? (fun x => x.2.hash = .bind hash) = none) :
    PagesAgree t hash k ↔ t.rows = [] := by
  have hpages : allPages t hash k = [] := by
    simp [allPages, getBlocksByIndexRange, hne, hunknown]
  have hafter : blocksAfter t hash = loadAllBlocks t := by
    have hnone : t.rows.dropWhile (fun x => x.2.hash ≠ .bind hash) = [] := by
      rw [List.dropWhile_eq_nil_iff]
      simpa using hunknown
    simp only [blocksAfter, hne, if_false, hnone]
  -- the pages of an unknown hash are empty, and the whole chain comes after it
  constructor
  · intro h
    have hempty := h.blocks
    rw [hpages, hafter] at hempty
    have hlength := congrArg List.length hempty
    rw [length_loadAllBlocks] at hlength
    exact List.eq_nil_of_length_eq_zero hlength.symm
  · intro hempty
    refine ⟨?_, ?_⟩
    · rw [hpages, hafter]
      simp [loadAllBlocks, Table.data, hempty]
    · rw [hpages]
      simp [countBlocksAfterHash, hne, hempty]

/-! ## A known hash -/

section Known

variable {t : BlockTable} {hash : String} {front after : List (Nat × BlockRow)}
  {x : Nat × BlockRow}

theorem RowAt.blocksAfter_eq (h : RowAt t hash front x after) (hne : hash ≠ "0") :
    blocksAfter t hash = after.map fun y => y.2.toBlock := by
  have hdrop : t.rows.dropWhile (fun y => y.2.hash ≠ .bind hash) = x :: after := by
    rw [h.split, List.dropWhile_append_of_pos (by simpa using h.others),
      List.dropWhile_cons_of_neg (by simpa using h.named)]
  simp only [blocksAfter, hne, if_false, hdrop]

/-- The ids in use behind the known one are those of the later rows. -/
theorem RowAt.length_rowsWithin (h : RowAt t hash front x after) (s : Nat) :
    (rowsWithin t x.1 (x.1 + s)).length = countBelow after (x.1 + 1 + s) := by
  have hrows := h.filter_rows (p := fun i => decide (x.1 < i ∧ i ≤ x.1 + s)) (by
    intro i hi
    exact (of_decide_eq_true hi).1)
  rw [rowsWithin, hrows, countBelow, List.countP_eq_length_filter]
  congr 1
  apply List.filter_congr
  intro y hy
  have hlater : x.1 < y.1 := by
    rw [← h.filter_after] at hy
    simpa using List.of_mem_filter hy
  exact decide_eq_decide.2 (by omega)

/-- The page at `start` begins as many blocks after the known one as there are ids in use. -/
theorem RowAt.getBlocksByIndexRange_page (h : RowAt t hash front x after) (hids : t.seq < 2 ^ 63)
    (hne : hash ≠ "0") (start k : UInt32) :
    getBlocksByIndexRange t start k hash = Paging.page k.toNat (after.map fun y => y.2.toBlock)
      (countBelow after (x.1 + 1 + start.toNat)) := by
  have hid : x.1 ≤ t.seq := t.ids_le_seq x (by rw [h.split]; simp)
  rw [h.getBlocksByIndexRange_eq hne (Nat.lt_of_le_of_lt hid hids),
    filter_from h.ids_increasing_after, List.map_take, List.map_drop, Paging.page]

theorem pagesAgree_known_iff {k : UInt32} (hk : 0 < k.toNat) (hids : t.seq < 2 ^ 63)
    (hne : hash ≠ "0") (h : RowAt t hash front x after) :
    PagesAgree t hash k ↔ CountableFrom t x.1 (t.rows.filter fun y => x.1 < y.1).length k := by
  have hafter := h.blocksAfter_eq hne
  have hcount := h.countBlocksAfterHash_eq hne
  have hpages := allPages_eq hk
    (fun s => Paging.page k.toNat (after.map fun y => y.2.toBlock) (countBelow after (x.1 + 1 + s)))
    fun start => h.getBlocksByIndexRange_page hids hne start k
  have hnone : countBelow after (x.1 + 1 + 0) = 0 := by
    rw [← h.length_rowsWithin, rowsWithin]
    simp
  have hstep : ∀ s d, countBelow after (x.1 + 1 + (s + d)) ≤
      countBelow after (x.1 + 1 + s) + d := by
    intro s d
    rw [← Nat.add_assoc]
    exact countBelow_add_le h.ids_increasing_after _ _
  -- pages at the right places are pages without a gap in front of the last one
  have hshift := Paging.flatMap_shifted_iff (c := fun s => countBelow after (x.1 + 1 + s)) hk
    h.nodup_after hnone hstep
  have hwithin := h.length_rowsWithin (k.toNat * (Paging.pages k.toNat after.length - 1))
  simp only [List.length_map] at hshift
  rw [h.filter_after]
  constructor
  · intro hagree
    have hlength := hagree.length
    rw [hagree.blocks, hafter, List.length_map, hcount] at hlength
    have hblocks := hagree.blocks
    rw [hpages, hafter, hcount, ← hlength] at hblocks
    exact ⟨by omega, by omega, hwithin.trans (hshift.1 hblocks)⟩
  · intro hcountable
    have hlength : (countBlocksAfterHash t hash).toNat = after.length := by
      have hfew := hcountable.few
      have huncut := hcountable.uncut
      omega
    have hblocks : allPages t hash k = after.map fun y => y.2.toBlock := by
      rw [hpages, hlength]
      exact hshift.2 (hwithin.symm.trans hcountable.noGap)
    exact ⟨hblocks.trans hafter.symm, by rw [hblocks, List.length_map, hlength]⟩

end Known

/-- The pages agree with the count if and only if the table is `Countable` from the hash on.  A row
id is a signed 64-bit number. -/
theorem pages_agree_iff {t : BlockTable} {hash : String} {k : UInt32} (hk : k ≠ 0)
    (hids : t.seq < 2 ^ 63) : PagesAgree t hash k ↔ Countable t hash k := by
  have hpos : 0 < k.toNat := Nat.pos_of_ne_zero fun hzero => hk (UInt32.toNat_inj.1 hzero)
  by_cases hzero : hash = "0"
  · rw [hzero, Countable, if_pos rfl]
    exact pagesAgree_zero_iff hpos
  · rw [Countable, if_neg hzero]
    cases hfind : t.rows.find? fun x => x.2.hash = .bind hash with
    | none => exact pagesAgree_unknown_iff hzero hfind
    | some x =>
        rcases exists_rowAt hfind with ⟨front, after, hrow⟩
        exact pagesAgree_known_iff hpos hids hzero hrow

/-- Three blocks, each over the one before. -/
def threeBlocks : BlockTable :=
  [("a", "0"), ("b", "a"), ("c", "b")].foldl (fun t x =>
    (insertBlock t { Block.default with hash := x.1, previousHash := x.2 }).1) Table.empty

/-- Behind the first of them there are two, on two pages. -/
theorem pages_agree_threeBlocks : PagesAgree threeBlocks "a" 1 := by
  refine (pages_agree_iff (by decide) (by decide)).2 ?_
  have htwo : CountableFrom threeBlocks 1 2 1 := by
    constructor <;> decide +kernel
  exact htwo

/-- A hash that the node does not know: one block is counted, none is sent. -/
theorem unknown_hash_counted : ¬ PagesAgree BlockchainService.FirstBlock.table "fork" 4 := by
  intro h
  have hblocks := congrArg List.length h.blocks
  revert hblocks
  decide

end ChainDB
end Blockchain
end DChat
