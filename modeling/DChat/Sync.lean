import DChat.History
import DChat.BlockRows

/-!
# Sync — catching up with a peer

At startup a node asks a peer for the blocks after its own tip, page by page, checks the batch
and inserts it block by block.  A batch that fits on the chain goes in whole; which accepted
batches fit is `fits_iff` and what an honest peer sends fits.
-/

namespace DChat
namespace Blockchain
namespace BlockchainService

open Utils Crypto LinkedChain

variable {E : Env}

/-! ## Inserting a batch that fits -/

/-- A block that continues a valid chain is stored, when it has a hash of its own. -/
theorem insertBlock_continues {t : BlockTable} {b : Block}
    (hvalid : ValidBlocks E (ChainDB.loadAllBlocks t ++ [b])) (hstorable : b.Storable)
    (hnodup : ((ChainDB.loadAllBlocks t ++ [b]).map Block.hash).Nodup) :
    (ChainDB.insertBlock t b).2 = true ∧
      ChainDB.loadAllBlocks (ChainDB.insertBlock t b).1 = ChainDB.loadAllBlocks t ++ [b] := by
  rw [List.map_append, List.nodup_append'] at hnodup
  have hfresh : ∀ c ∈ ChainDB.loadAllBlocks t, c.hash ≠ b.hash := by
    intro c hc heq
    exact hnodup.2.2 (List.mem_map_of_mem hc) (by simp [heq])
  have hlink : b.previousHash = tip Block.hash "0" (ChainDB.loadAllBlocks t) :=
    (linkedFrom_concat.1 hvalid.linked).2
  have hold : ValidBlocks E (ChainDB.loadAllBlocks t) := hvalid.of_prefix (List.prefix_append _ _)
  have hstored : (ChainDB.insertBlock t b).2 = true := by
    apply ChainDB.insertBlock_eq_true.2
    rw [cString_of_noNul hstorable.hash, cString_of_noNul hstorable.previousHash]
    refine ⟨?_, hfresh⟩
    by_cases hne : ChainDB.loadAllBlocks t = []
    · left
      simpa [hne] using hlink
    · right
      intro c hc
      rw [hlink]
      exact hold.linked.grounded.parent_ne_tip (ChainDB.hashes_nodup t) hold.hash_ne_zero hne c hc
  refine ⟨hstored, ?_⟩
  rw [ChainDB.loadAllBlocks_insertBlock hstored, BlockRow.toBlock_ofBlock hstorable]

/-- A batch that continues a valid chain is stored, block by block. -/
theorem insertNewBlocks_continues {t : BlockTable} {blocks : List Block}
    (hvalid : ValidBlocks E (ChainDB.loadAllBlocks t ++ blocks))
    (hstorable : ∀ b ∈ blocks, b.Storable)
    (hnodup : ((ChainDB.loadAllBlocks t ++ blocks).map Block.hash).Nodup) :
    (∀ stored ∈ (insertNewBlocks t blocks).2, stored = true) ∧
      ChainDB.loadAllBlocks (insertNewBlocks t blocks).1 = ChainDB.loadAllBlocks t ++ blocks := by
  induction blocks generalizing t with
  | nil => simp [insertNewBlocks]
  | cons b bs ih =>
      have hsplit : ChainDB.loadAllBlocks t ++ b :: bs = ChainDB.loadAllBlocks t ++ [b] ++ bs := by
        simp
      rw [hsplit] at hvalid hnodup
      have hfirst : ChainDB.loadAllBlocks t ++ [b] <+: ChainDB.loadAllBlocks t ++ [b] ++ bs :=
        List.prefix_append _ _
      rcases insertBlock_continues (hvalid.of_prefix hfirst) (hstorable b (by simp))
        (hnodup.sublist (hfirst.sublist.map _)) with ⟨hstored, hload⟩
      rw [← hload] at hvalid hnodup
      rcases ih hvalid (fun c hc => hstorable c (List.mem_cons_of_mem _ hc)) hnodup with
        ⟨hrest, hall⟩
      refine ⟨?_, ?_⟩
      · intro stored hmem
        rcases List.mem_cons.1 hmem with hhead | htail
        · exact hhead.trans hstored
        · exact hrest stored htail
      · calc ChainDB.loadAllBlocks (insertNewBlocks t (b :: bs)).1
            = ChainDB.loadAllBlocks (ChainDB.insertBlock t b).1 ++ bs := hall
          _ = ChainDB.loadAllBlocks t ++ b :: bs := by rw [hload, hsplit]

/-- When every insertion succeeds, the batch was appended. -/
theorem loadAllBlocks_insertNewBlocks {t : BlockTable} {blocks : List Block}
    (hstorable : ∀ b ∈ blocks, b.Storable)
    (h : ∀ stored ∈ (insertNewBlocks t blocks).2, stored = true) :
    ChainDB.loadAllBlocks (insertNewBlocks t blocks).1 = ChainDB.loadAllBlocks t ++ blocks := by
  induction blocks generalizing t with
  | nil => simp [insertNewBlocks]
  | cons b bs ih =>
      have hstored : (ChainDB.insertBlock t b).2 = true := h _ (by simp [insertNewBlocks])
      have hrest : ∀ stored ∈ (insertNewBlocks (ChainDB.insertBlock t b).1 bs).2, stored = true :=
        fun stored hmem => h stored (by simp [insertNewBlocks, hmem])
      calc ChainDB.loadAllBlocks (insertNewBlocks t (b :: bs)).1
          = ChainDB.loadAllBlocks (ChainDB.insertBlock t b).1 ++ bs :=
            ih (fun c hc => hstorable c (List.mem_cons_of_mem _ hc)) hrest
        _ = ChainDB.loadAllBlocks t ++ b :: bs := by
            rw [ChainDB.loadAllBlocks_insertBlock hstored,
              BlockRow.toBlock_ofBlock (hstorable b (by simp)), List.append_assoc,
              List.singleton_append]

/-! ## What `validateNewBlocks` accepts -/

theorem sequenceLinked_cons {b : Block} {bs : List Block} :
    sequenceLinked (b :: bs) = true ↔
      LinkedFrom Block.hash Block.previousHash b.hash bs := by
  induction bs generalizing b with
  | nil => simp [sequenceLinked]
  | cons c cs ih => simp [sequenceLinked, ih]

theorem allSingleValid_eq_true {blocks : List Block} :
    allSingleValid E blocks = .ok true ↔ ∀ b ∈ blocks, Authentic E b := by
  induction blocks with
  | nil => simp [allSingleValid, pure, Except.pure]
  | cons b bs ih =>
      cases hsingle : validateSingleBlock E b with
      | error e => simp [allSingleValid, Authentic, hsingle, bind, Except.bind]
      | ok error =>
          cases error with
          | none => simp [allSingleValid, Authentic, hsingle, ih, bind, Except.bind]
          | some e =>
              simp [allSingleValid, Authentic, hsingle, bind, Except.bind, pure, Except.pure]

theorem validateNewBlocks_cons_eq_true {t : BlockTable} {b : Block} {bs : List Block} :
    validateNewBlocks E t (b :: bs) = .ok true ↔
      extendsTip t b = true ∧ LinkedFrom Block.hash Block.previousHash b.hash bs ∧
        ∀ c ∈ b :: bs, Authentic E c := by
  rw [← sequenceLinked_cons, ← allSingleValid_eq_true]
  cases hseq : sequenceLinked (b :: bs) <;> cases htip : extendsTip t b <;>
    simp [validateNewBlocks, hseq, htip, pure, Except.pure]

/-- The tip check, on a parent without NUL: passed on an empty chain whatever the parent is. -/
theorem extendsTip_eq_true {t : BlockTable} {b : Block} (hnul : NoNul b.previousHash) :
    extendsTip t b = true ↔ ChainDB.loadAllBlocks t = [] ∨ b.previousHash = tipHash t := by
  rw [extendsTip, tipHash, tip, ChainDB.findTip_eq]
  cases hlast : (ChainDB.loadAllBlocks t).getLast? with
  | none =>
      have hempty := List.getLast?_eq_none_iff.1 hlast
      simp [hempty]
  | some tipBlock =>
      have hne : ChainDB.loadAllBlocks t ≠ [] := by
        intro hempty
        simp [hempty] at hlast
      by_cases hprev : b.previousHash = tipBlock.hash
      · simp [hprev]
      · -- the lookup by the parent's hash cannot give the tip either
        cases hfind : ChainDB.findBlockByHash t b.previousHash with
        | none => simp [hprev, hne]
        | some prevBlock =>
            have hhash := (ChainDB.findBlockByHash_some hfind).2
            rw [cString_of_noNul hnul] at hhash
            simp [hprev, hne, hhash]

/-- What continues a valid chain is accepted. -/
theorem validateNewBlocks_continues {t : BlockTable} {blocks : List Block}
    (hvalid : ValidBlocks E (ChainDB.loadAllBlocks t ++ blocks))
    (hstorable : ∀ b ∈ blocks, b.Storable) : validateNewBlocks E t blocks = .ok true := by
  cases blocks with
  | nil => rfl
  | cons b bs =>
      have hlinked := (linkedFrom_append.1 hvalid.linked).2
      refine validateNewBlocks_cons_eq_true.2 ⟨?_, hlinked.2, ?_⟩
      · exact (extendsTip_eq_true (hstorable b (by simp)).previousHash).2 (Or.inr hlinked.1)
      · intro c hc
        exact hvalid.authentic c (List.mem_append_right _ hc)

/-- On an accepted batch, what is left is the link between chain and batch. -/
theorem validBlocks_append_iff {t : BlockTable} {b : Block} {bs : List Block}
    (hold : ValidBlocks E (ChainDB.loadAllBlocks t))
    (hnew : validateNewBlocks E t (b :: bs) = .ok true) :
    ValidBlocks E (ChainDB.loadAllBlocks t ++ b :: bs) ↔ b.previousHash = tipHash t := by
  rcases validateNewBlocks_cons_eq_true.1 hnew with ⟨_, hlinked, hauth⟩
  constructor
  · intro h
    exact (linkedFrom_append.1 h.linked).2.1
  · intro hlink
    refine ⟨linkedFrom_append.2 ⟨hold.linked, hlink, hlinked⟩, ?_⟩
    intro c hc
    rcases List.mem_append.1 hc with hmem | hmem
    · exact hold.authentic c hmem
    · exact hauth c hmem

/-- An accepted batch goes in whole and leaves the chain valid, except on an empty chain, where
the batch has to start with a first block. -/
theorem accepted_batch_fits_iff {t : BlockTable} {blocks : List Block}
    (hvalid : validateLocalChain E t = .ok true)
    (hnew : validateNewBlocks E t blocks = .ok true)
    (hstorable : ∀ b ∈ blocks, b.Storable)
    (hS : E.CollisionFree (Block.canonicals (ChainDB.loadAllBlocks t ++ blocks))) :
    ((∀ stored ∈ (insertNewBlocks t blocks).2, stored = true) ∧
        validateLocalChain E (insertNewBlocks t blocks).1 = .ok true) ↔
      ChainDB.loadAllBlocks t ≠ [] ∨ ∀ first ∈ blocks.head?, first.previousHash = "0" := by
  have hold := validateLocalChain_eq_true.1 hvalid
  rw [validateLocalChain_eq_true]
  cases blocks with
  | nil => simpa [insertNewBlocks] using hold
  | cons b bs =>
      have hfits : ((∀ stored ∈ (insertNewBlocks t (b :: bs)).2, stored = true) ∧
          ValidBlocks E (ChainDB.loadAllBlocks (insertNewBlocks t (b :: bs)).1)) ↔
            b.previousHash = tipHash t := by
        rw [← validBlocks_append_iff hold hnew]
        constructor
        · rintro ⟨hstored, hafter⟩
          rwa [loadAllBlocks_insertNewBlocks hstorable hstored] at hafter
        · intro hafter
          rcases insertNewBlocks_continues hafter hstorable (hafter.nodup_hash hS) with
            ⟨hstored, hload⟩
          exact ⟨hstored, hload.symm ▸ hafter⟩
      have htip := (extendsTip_eq_true (hstorable b (by simp)).previousHash).1
        (validateNewBlocks_cons_eq_true.1 hnew).1
      rw [hfits]
      by_cases hempty : ChainDB.loadAllBlocks t = []
      · have hroot : tipHash t = "0" := by rw [tipHash, hempty, tip_nil]
        simp [hempty, hroot]
      · simpa [hempty] using htip

theorem validateNewBlocks_child {t : BlockTable} (ht : extendsTip t FirstBlock.child = true) :
    validateNewBlocks testEnv t [FirstBlock.child] = .ok true := by
  refine validateNewBlocks_cons_eq_true.2 ⟨ht, trivial, ?_⟩
  intro c hc
  rw [List.mem_singleton.1 hc]
  exact FirstBlock.blockOf_child.authentic

theorem collisionFree_child :
    testEnv.CollisionFree (Block.canonicals [FirstBlock.block, FirstBlock.child]) := by
  apply collisionFree_of_nodup
  · intro c hc
    rcases List.mem_pair.1 hc with rfl | rfl
    · exact FirstBlock.blockOf_block.authentic
    · exact FirstBlock.blockOf_child.authentic
  · decide +kernel

theorem accepted_batch_fits_child :
    (∀ stored ∈ (insertNewBlocks FirstBlock.table [FirstBlock.child]).2, stored = true) ∧
      validateLocalChain testEnv (insertNewBlocks FirstBlock.table [FirstBlock.child]).1 =
        .ok true := by
  have htip : extendsTip FirstBlock.table FirstBlock.child = true := by
    rw [extendsTip_eq_true FirstBlock.storable_child.previousHash, FirstBlock.tipHash_table]
    exact Or.inr FirstBlock.blockOf_child.previousHash
  have hstorable : ∀ b ∈ [FirstBlock.child], b.Storable := by
    intro b hb
    rw [List.mem_singleton.1 hb]
    exact FirstBlock.storable_child
  have hS : testEnv.CollisionFree (Block.canonicals
      (ChainDB.loadAllBlocks FirstBlock.table ++ [FirstBlock.child])) := by
    rw [FirstBlock.loadAllBlocks_table]
    exact collisionFree_child
  refine (accepted_batch_fits_iff FirstBlock.valid_table (validateNewBlocks_child htip) hstorable
    hS).2 ?_
  left
  simp [FirstBlock.loadAllBlocks_table]

/-- An empty chain takes a batch that starts in the middle of another one. -/
theorem orphan_batch_accepted :
    validateLocalChain testEnv KeyedTable.Table.empty = .ok true ∧
      validateNewBlocks testEnv KeyedTable.Table.empty [FirstBlock.child] = .ok true ∧
      ¬ validateLocalChain testEnv
        (insertNewBlocks KeyedTable.Table.empty [FirstBlock.child]).1 = .ok true := by
  have hempty : ChainDB.loadAllBlocks KeyedTable.Table.empty = [] := rfl
  refine ⟨validateLocalChain_eq_true.2 ValidBlocks.nil, validateNewBlocks_child rfl, ?_⟩
  intro hafter
  have hall : ∀ stored ∈ (insertNewBlocks KeyedTable.Table.empty [FirstBlock.child]).2,
      stored = true := by
    have hstored : (ChainDB.insertBlock KeyedTable.Table.empty FirstBlock.child).2 = true :=
      ChainDB.insertBlock_eq_true.2 ⟨Or.inr (by simp [hempty]), by simp [hempty]⟩
    simp [insertNewBlocks, hstored]
  have hload := loadAllBlocks_insertNewBlocks (by simpa using FirstBlock.storable_child) hall
  rw [hempty, List.nil_append] at hload
  have hblocks := validateLocalChain_eq_true.1 hafter
  rw [hload] at hblocks
  -- the only block does not name the marker
  exact absurd hblocks.linked.1 (by decide)

/-! ## Asking for a range -/

/-- The values of `start` in `while (start < count) { ...; start += batch; }` on unsigned ints;
`none` when the loop is still running after that many rounds. -/
def requestStarts (batch count : UInt32) : Nat → UInt32 → Option (List UInt32)
  | 0, _ => none
  | fuel + 1, start =>
      if start < count then
        (requestStarts batch count fuel (start + batch)).map (start :: ·)
      else
        some []

/-- `BlockchainService::addNewBlockRange`. -/
def addNewBlockRange (newBlocks blocks : List Block) : List Block := newBlocks ++ blocks

/-- The second loop of `init`, answered by a peer with the table `t`. -/
def requestBlocks (t : BlockTable) (batch : UInt32) (lastHash : String) (starts : List UInt32) :
    List Block :=
  starts.foldl (fun newBlocks start =>
    addNewBlockRange newBlocks (ChainDB.getBlocksByIndexRange t start batch lastHash)) []

/-- The row ids are consecutive numbers below `2^63`, as in a table that never lost a row. -/
def ConsecutiveIds (t : BlockTable) (first : Nat) : Prop :=
  t.rows.map Prod.fst = List.range' first t.rows.length ∧ first + t.rows.length < 2 ^ 63

/-- While the counter does not wrap, the loop runs through the first positions of the pages. -/
theorem requestStarts_eq {batch count : UInt32} {n fuel : Nat} (start : UInt32)
    (hroom : start.toNat + batch.toNat * n < 2 ^ 32) (hfuel : n < fuel)
    (hreach : count.toNat ≤ start.toNat + batch.toNat * n)
    (hlast : n = 0 ∨ start.toNat + batch.toNat * (n - 1) < count.toNat) :
    requestStarts batch count fuel start =
      some ((List.range n).map fun i => UInt32.ofNat (start.toNat + batch.toNat * i)) := by
  induction n generalizing fuel start with
  | zero =>
      rcases Nat.exists_eq_succ_of_ne_zero (Nat.ne_of_gt hfuel) with ⟨fuel', rfl⟩
      have hstop : ¬ start < count := by
        rw [UInt32.lt_iff_toNat_lt]
        omega
      simp [requestStarts, hstop]
  | succ n ih =>
      rcases Nat.exists_eq_succ_of_ne_zero (Nat.ne_of_gt (Nat.zero_lt_of_lt hfuel)) with
        ⟨fuel', rfl⟩
      have hmore : start.toNat + batch.toNat * n < count.toNat := by
        rcases hlast with h | h
        · cases h
        · simpa using h
      have hgo : start < count := by
        rw [UInt32.lt_iff_toNat_lt]
        exact Nat.lt_of_le_of_lt (Nat.le_add_right _ _) hmore
      -- the next start does not wrap
      have hnext : ∀ i, (start + batch).toNat + batch.toNat * i =
          start.toNat + batch.toNat * (i + 1) := by
        intro i
        rw [Nat.mul_succ] at hroom ⊢
        rw [UInt32.toNat_add, Nat.mod_eq_of_lt (by omega)]
        omega
      have hih : requestStarts batch count fuel' (start + batch) = some ((List.range n).map
          fun i => UInt32.ofNat ((start + batch).toNat + batch.toNat * i)) := by
        apply ih (start + batch) (by rw [hnext]; exact hroom) (Nat.lt_of_succ_lt_succ hfuel)
        · rw [hnext]
          exact hreach
        · rcases Nat.eq_zero_or_pos n with hzero | hpos
          · exact Or.inl hzero
          · right
            rw [hnext, Nat.sub_add_cancel hpos]
            exact hmore
      rw [requestStarts, if_pos hgo, hih, Option.map_some, List.range_succ_eq_map, List.map_cons,
        List.map_map]
      congr 2
      · simp
      · apply List.map_congr_left
        intro i _
        rw [hnext, Function.comp_apply]

/-- The loop ends when the counter has room for the end of the last page. -/
theorem requestStarts_of_room {batch count : UInt32} (hbatch : 0 < batch.toNat)
    (hroom : batch.toNat * Paging.pages batch.toNat count.toNat < 2 ^ 32) {fuel : Nat}
    (hfuel : count.toNat < fuel) :
    requestStarts batch count fuel 0 = some ((Paging.starts batch.toNat
      (Paging.pages batch.toNat count.toNat)).map UInt32.ofNat) := by
  rcases Paging.pages_spec count.toNat hbatch with ⟨hreach, hlast⟩
  have hfew := Nat.lt_of_le_of_lt (Paging.pages_le count.toNat hbatch) hfuel
  have hloop := requestStarts_eq 0 (by simpa using hroom) hfew (by simpa using hreach)
    (by simpa using hlast)
  simpa [Paging.starts, List.map_map, Function.comp_def] using hloop

theorem requestStarts_pages {batch count : UInt32} (hbatch : 0 < batch.toNat)
    (hcount : count.toNat + batch.toNat < 2 ^ 32) {fuel : Nat} (hfuel : count.toNat < fuel) :
    requestStarts batch count fuel 0 = some ((Paging.starts batch.toNat
      (Paging.pages batch.toNat count.toNat)).map UInt32.ofNat) :=
  requestStarts_of_room hbatch (Nat.lt_trans (Paging.mul_pages_lt _ hbatch) hcount) hfuel

/-- The starts are below the count, so they are what they were before the cast. -/
theorem toNat_of_mem_starts {k count s : Nat} (hk : 0 < k) (hcount : count < 2 ^ 32)
    (hs : s ∈ Paging.starts k (Paging.pages k count)) : (UInt32.ofNat s).toNat = s := by
  have hlt := Paging.lt_of_mem_starts hk hs
  rw [UInt32.toNat_ofNat', Nat.mod_eq_of_lt (Nat.lt_trans hlt hcount)]

/-! ## What the peer answers -/

theorem filter_ids {ρ : Type} {rows : List (Nat × ρ)} {first : Nat} (i : Nat)
    (h : rows.map Prod.fst = List.range' first rows.length) :
    rows.filter (fun y => first + i ≤ y.1) = rows.drop i := by
  have hfront : ∀ y ∈ rows.take i, ¬ first + i ≤ y.1 := by
    intro y hy
    have hmem : y.1 ∈ (List.range' first rows.length).take i := by
      rw [← h, ← List.map_take]
      exact List.mem_map_of_mem hy
    rcases List.mem_take_iff_getElem.1 hmem with ⟨j, hj, hat⟩
    rw [List.getElem_range'] at hat
    omega
  have hback : ∀ y ∈ rows.drop i, first + i ≤ y.1 := by
    intro y hy
    have hmem : y.1 ∈ (List.range' first rows.length).drop i := by
      rw [← h, ← List.map_drop]
      exact List.mem_map_of_mem hy
    rw [List.drop_range', List.mem_range'_1] at hmem
    omega
  calc rows.filter (fun y => first + i ≤ y.1)
      = (rows.take i ++ rows.drop i).filter (fun y => first + i ≤ y.1) := by
        rw [List.take_append_drop]
    _ = rows.drop i := by
        rw [List.filter_append, List.filter_eq_nil_iff.2 (by simpa using hfront),
          List.filter_eq_self.2 (by simpa using hback), List.nil_append]

/-- With consecutive ids, the place of a row gives its id and those after it. -/
theorem ids_of_rowAt {t : BlockTable} {first : Nat} (hids : ConsecutiveIds t first) {hash : String}
    {front after : List (Nat × BlockRow)} {x : Nat × BlockRow}
    (h : ChainDB.RowAt t hash front x after) :
    x.1 = first + front.length ∧ after.map Prod.fst = List.range' (x.1 + 1) after.length := by
  have hall := hids.1
  rw [h.split, List.map_append, List.map_cons, eq_comm, List.range'_eq_append_iff] at hall
  rcases hall with ⟨k, _, hfront, hrest⟩
  rcases List.range'_eq_cons_iff.1 hrest.symm with ⟨hx, _, hafter⟩
  have hk : front.length = k := by
    simpa using congrArg List.length hfront
  have hlength := congrArg List.length hafter
  rw [List.length_map, List.length_range'] at hlength
  exact ⟨by omega, by rw [hafter, ← hx, hlength]⟩

/-- A page of the blocks after `b`. -/
theorem getBlocksByIndexRange_after {t : BlockTable} {first : Nat} (hids : ConsecutiveIds t first)
    {A B : List Block} {b : Block} (hload : ChainDB.loadAllBlocks t = A ++ b :: B)
    (hne : b.hash ≠ "0") (start batch : UInt32) :
    ChainDB.getBlocksByIndexRange t start batch b.hash =
      Paging.page batch.toNat B start.toNat := by
  rcases ChainDB.rowAt_of_load hload with ⟨front, x, after, hrow, _, hB⟩
  rcases ids_of_rowAt hids hrow with ⟨hx, hafter⟩
  have hplace := congrArg List.length hrow.split
  rw [List.length_append, List.length_cons] at hplace
  have hid : x.1 < 2 ^ 63 := by
    have hlt := hids.2
    omega
  rw [hrow.getBlocksByIndexRange_eq hne hid, filter_ids _ hafter, List.map_take, List.map_drop, hB,
    Paging.page]

/-- The count reaches the end of the chain.  A row id from `2^32` on is cut, so the count may be
too large. -/
theorem countBlocksAfterHash_after {t : BlockTable} {A B : List Block} {b : Block}
    (hload : ChainDB.loadAllBlocks t = A ++ b :: B) (hne : b.hash ≠ "0")
    (hlen : t.rows.length < 2 ^ 32) :
    B.length ≤ (ChainDB.countBlocksAfterHash t b.hash).toNat ∧
      (ChainDB.countBlocksAfterHash t b.hash).toNat ≤ t.rows.length := by
  rcases ChainDB.rowAt_of_load hload with ⟨front, x, after, hrow, _, hB⟩
  have hlength : after.length = B.length := by rw [← hB, List.length_map]
  have hle := List.length_filter_le (fun y => decide (x.1 % 2 ^ 32 < y.1)) t.rows
  rw [hrow.length_filter_cut] at hle
  rw [hrow.countBlocksAfterHash_eq hne]
  omega

/-- With ids from 1 on, and below `2^32`, nothing is cut. -/
theorem countBlocksAfterHash_eq {t : BlockTable} (hids : ConsecutiveIds t 1) {A B : List Block}
    {b : Block} (hload : ChainDB.loadAllBlocks t = A ++ b :: B) (hne : b.hash ≠ "0")
    (hlen : t.rows.length < 2 ^ 32) : (ChainDB.countBlocksAfterHash t b.hash).toNat = B.length := by
  rcases ChainDB.rowAt_of_load hload with ⟨front, x, after, hrow, _, hB⟩
  have hlength : after.length = B.length := by rw [← hB, List.length_map]
  have hplace := congrArg List.length hrow.split
  rw [List.length_append, List.length_cons] at hplace
  have hid : x.1 % 2 ^ 32 = x.1 := by
    rcases ids_of_rowAt hids hrow with ⟨hx, _⟩
    exact Nat.mod_eq_of_lt (by omega)
  have hnone : ChainDB.rowsWithin t x.1 x.1 = [] := by
    rw [ChainDB.rowsWithin, List.filter_eq_nil_iff]
    simp
  rw [hrow.countBlocksAfterHash_eq hne, hid, hnone, List.length_nil]
  omega

/-- Whatever part of the peer's chain a node has, the count it is told and the pages it is sent
are about the rest. -/
theorem rest_of_chain {t own : BlockTable} {first : Nat} {B : List Block}
    (hids : ConsecutiveIds t first) (hvalid : ValidBlocks E (ChainDB.loadAllBlocks t))
    (hsplit : ChainDB.loadAllBlocks t = ChainDB.loadAllBlocks own ++ B)
    (hlen : t.rows.length < 2 ^ 32) :
    B.length ≤ (ChainDB.countBlocksAfterHash t (tipHash own)).toNat ∧
      (ChainDB.countBlocksAfterHash t (tipHash own)).toNat ≤ t.rows.length ∧
      ∀ start batch, ChainDB.getBlocksByIndexRange t start batch (tipHash own) =
        Paging.page batch.toNat B start.toNat := by
  rcases List.eq_nil_or_concat (ChainDB.loadAllBlocks own) with hempty | ⟨A, b, hown⟩
  · have htip : tipHash own = "0" := by rw [tipHash, hempty, tip_nil]
    have hB : ChainDB.loadAllBlocks t = B := by rw [hsplit, hempty, List.nil_append]
    have hcount : B.length = t.rows.length := by rw [← hB, ChainDB.length_loadAllBlocks]
    rw [htip, ChainDB.countBlocksAfterHash_zero hlen]
    refine ⟨Nat.le_of_eq hcount, le_rfl, ?_⟩
    intro start batch
    rw [ChainDB.getBlocksByIndexRange_zero, hB]
  · rw [List.concat_eq_append] at hown
    have htip : tipHash own = b.hash := by rw [tipHash, hown, tip_concat]
    have hload : ChainDB.loadAllBlocks t = A ++ b :: B := by
      rw [hsplit, hown, List.append_assoc, List.singleton_append]
    have hne : b.hash ≠ "0" := hvalid.hash_ne_zero b (by rw [hload]; simp)
    rw [htip]
    rcases countBlocksAfterHash_after hload hne hlen with ⟨hreach, hle⟩
    exact ⟨hreach, hle, getBlocksByIndexRange_after hids hload hne⟩

/-- The count is the length of the rest. -/
theorem countBlocksAfterHash_rest {t own : BlockTable} {B : List Block}
    (hids : ConsecutiveIds t 1) (hvalid : ValidBlocks E (ChainDB.loadAllBlocks t))
    (hsplit : ChainDB.loadAllBlocks t = ChainDB.loadAllBlocks own ++ B)
    (hlen : t.rows.length < 2 ^ 32) :
    (ChainDB.countBlocksAfterHash t (tipHash own)).toNat = B.length := by
  rcases List.eq_nil_or_concat (ChainDB.loadAllBlocks own) with hempty | ⟨A, b, hown⟩
  · have hB : ChainDB.loadAllBlocks t = B := by rw [hsplit, hempty, List.nil_append]
    rw [tipHash, hempty, tip_nil, ChainDB.countBlocksAfterHash_zero hlen, ← hB,
      ChainDB.length_loadAllBlocks]
  · rw [List.concat_eq_append] at hown
    have hload : ChainDB.loadAllBlocks t = A ++ b :: B := by
      rw [hsplit, hown, List.append_assoc, List.singleton_append]
    have hne : b.hash ≠ "0" := hvalid.hash_ne_zero b (by rw [hload]; simp)
    rw [tipHash, hown, tip_concat]
    exact countBlocksAfterHash_eq hids hload hne hlen

/-- The pages of all requests are as much of the rest as the count asks for. -/
theorem requestBlocks_take {t : BlockTable} {lastHash : String} {batch : UInt32} {B : List Block}
    {count : Nat} (hbatch : 0 < batch.toNat) (hcount : count + batch.toNat < 2 ^ 32)
    (hpage : ∀ start batch, ChainDB.getBlocksByIndexRange t start batch lastHash =
      Paging.page batch.toNat B start.toNat) :
    requestBlocks t batch lastHash ((Paging.starts batch.toNat
      (Paging.pages batch.toNat count)).map UInt32.ofNat) =
        B.take (batch.toNat * Paging.pages batch.toNat count) := by
  have hflat : ∀ starts, requestBlocks t batch lastHash starts =
      starts.flatMap fun start => ChainDB.getBlocksByIndexRange t start batch lastHash :=
    fun starts => List.flatMap_eq_foldl.symm
  have hstart := fun s => toNat_of_mem_starts (s := s) hbatch (Nat.lt_of_add_right_lt hcount)
  calc requestBlocks t batch lastHash ((Paging.starts batch.toNat
        (Paging.pages batch.toNat count)).map UInt32.ofNat)
      = (Paging.starts batch.toNat (Paging.pages batch.toNat count)).flatMap
          (fun s => Paging.page batch.toNat B (UInt32.ofNat s).toNat) := by
        simp only [hflat, List.flatMap_map, hpage]
    _ = (Paging.starts batch.toNat (Paging.pages batch.toNat count)).flatMap
          (Paging.page batch.toNat B) :=
        List.flatMap_congr fun s hs => by rw [hstart s hs]
    _ = B.take (batch.toNat * Paging.pages batch.toNat count) := Paging.flatMap_page ..

/-- A count that reaches the end of the rest asks for all of it. -/
theorem requestBlocks_eq {t : BlockTable} {lastHash : String} {batch : UInt32} {B : List Block}
    {count : Nat} (hbatch : 0 < batch.toNat) (hreach : B.length ≤ count)
    (hcount : count + batch.toNat < 2 ^ 32)
    (hpage : ∀ start batch, ChainDB.getBlocksByIndexRange t start batch lastHash =
      Paging.page batch.toNat B start.toNat) :
    requestBlocks t batch lastHash ((Paging.starts batch.toNat
      (Paging.pages batch.toNat count)).map UInt32.ofNat) = B := by
  rw [requestBlocks_take hbatch hcount hpage]
  exact List.take_of_length_le (Nat.le_trans hreach (Paging.pages_spec count hbatch).1)

/-- A node that holds a part of an honest peer's chain asks for the rest, accepts it, inserts it
whole, and then holds the peer's chain. -/
theorem range_sync_reproduces_chain {t own : BlockTable} {first : Nat} {batch : UInt32}
    (hbatch : 1 ≤ batch) (hids : ConsecutiveIds t first)
    (hvalid : validateLocalChain E t = .ok true)
    (hown : ChainDB.loadAllBlocks own <+: ChainDB.loadAllBlocks t)
    (hcount : t.rows.length < 2 ^ 32 - batch.toNat)
    (hS : E.CollisionFree (Block.canonicals (ChainDB.loadAllBlocks t))) :
    ∃ starts, (∀ fuel, (ChainDB.countBlocksAfterHash t (tipHash own)).toNat < fuel →
        requestStarts batch (ChainDB.countBlocksAfterHash t (tipHash own)) fuel 0 =
          some starts) ∧
      validateNewBlocks E own (requestBlocks t batch (tipHash own) starts) = .ok true ∧
      (∀ stored ∈ (insertNewBlocks own (requestBlocks t batch (tipHash own) starts)).2,
        stored = true) ∧
      ChainDB.loadAllBlocks (insertNewBlocks own
        (requestBlocks t batch (tipHash own) starts)).1 = ChainDB.loadAllBlocks t := by
  have hblocks := validateLocalChain_eq_true.1 hvalid
  have hpos : 0 < batch.toNat := UInt32.le_iff_toNat_le.1 hbatch
  rcases hown with ⟨B, hsplit⟩
  rcases rest_of_chain hids hblocks hsplit.symm (by omega) with ⟨hreach, hle, hpage⟩
  have hroom : (ChainDB.countBlocksAfterHash t (tipHash own)).toNat + batch.toNat < 2 ^ 32 := by
    omega
  refine ⟨_, fun fuel hfuel => requestStarts_pages hpos hroom hfuel, ?_⟩
  rw [requestBlocks_eq hpos hreach hroom hpage]
  rw [← hsplit] at hblocks hS
  have hstorable : ∀ b ∈ B, b.Storable := by
    intro b hb
    exact ChainDB.storable_of_mem (hsplit ▸ List.mem_append_right _ hb)
  rcases insertNewBlocks_continues hblocks hstorable (hblocks.nodup_hash hS) with ⟨hstored, hload⟩
  exact ⟨validateNewBlocks_continues hblocks hstorable, hstored, hload.trans hsplit⟩

/-- The peer's chain of two blocks, of which the node has the first. -/
def FirstBlock.longerTable : BlockTable :=
  (ChainDB.insertBlock FirstBlock.table FirstBlock.child).1

theorem FirstBlock.loadAllBlocks_longerTable :
    ChainDB.loadAllBlocks FirstBlock.longerTable = [FirstBlock.block, FirstBlock.child] := by
  have hstored : (ChainDB.insertBlock FirstBlock.table FirstBlock.child).2 = true := by
    rw [ChainDB.insertBlock_eq_true, FirstBlock.loadAllBlocks_table]
    decide +kernel
  rw [FirstBlock.longerTable, ChainDB.loadAllBlocks_insertBlock hstored,
    BlockRow.toBlock_ofBlock FirstBlock.storable_child, FirstBlock.loadAllBlocks_table]
  rfl

theorem range_sync_reproduces_chain_firstBlock :
    ∃ starts, (∀ fuel, (ChainDB.countBlocksAfterHash FirstBlock.longerTable
          (tipHash FirstBlock.table)).toNat < fuel →
        requestStarts 4 (ChainDB.countBlocksAfterHash FirstBlock.longerTable
          (tipHash FirstBlock.table)) fuel 0 = some starts) ∧
      validateNewBlocks testEnv FirstBlock.table (requestBlocks FirstBlock.longerTable 4
        (tipHash FirstBlock.table) starts) = .ok true ∧
      (∀ stored ∈ (insertNewBlocks FirstBlock.table (requestBlocks FirstBlock.longerTable 4
        (tipHash FirstBlock.table) starts)).2, stored = true) ∧
      ChainDB.loadAllBlocks (insertNewBlocks FirstBlock.table
        (requestBlocks FirstBlock.longerTable 4 (tipHash FirstBlock.table) starts)).1 =
        ChainDB.loadAllBlocks FirstBlock.longerTable := by
  have hvalid : validateLocalChain testEnv FirstBlock.longerTable = .ok true := by
    rw [validateLocalChain_eq_true, FirstBlock.loadAllBlocks_longerTable]
    exact (ValidBlocks.nil.concat FirstBlock.blockOf_block.authentic rfl).concat
      FirstBlock.blockOf_child.authentic rfl
  have hown : ChainDB.loadAllBlocks FirstBlock.table <+:
      ChainDB.loadAllBlocks FirstBlock.longerTable := by
    rw [FirstBlock.loadAllBlocks_table, FirstBlock.loadAllBlocks_longerTable]
    exact List.prefix_append [FirstBlock.block] [FirstBlock.child]
  have hS : testEnv.CollisionFree (Block.canonicals
      (ChainDB.loadAllBlocks FirstBlock.longerTable)) := by
    rw [FirstBlock.loadAllBlocks_longerTable]
    exact collisionFree_child
  have hids : ConsecutiveIds FirstBlock.longerTable 1 := by
    constructor <;> decide +kernel
  exact range_sync_reproduces_chain (by decide) hids hvalid hown (by decide +kernel) hS

end BlockchainService
end Blockchain
end DChat
