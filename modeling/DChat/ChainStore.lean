import DChat.ChainValidity

/-!
# ChainStore — which blocks the store gives back as they were

A block goes into the table through C strings and a signed 64-bit column, and comes back the same
way.  What is read is always storable, so a block that is not comes back as another one, under a
hash that may no longer be its digest.
-/

namespace DChat
namespace Blockchain
namespace BlockchainService

open Utils Crypto

/-- After `insertBlock` took the block, every way of reading gives it back, and it is still one that
the validation accepts. -/
structure GivenBack (E : Env) (t : BlockTable) (b : Block) : Prop where
  found : ChainDB.findBlockByHash (ChainDB.insertBlock t b).1 b.hash = some b
  tip : ChainDB.findTip (ChainDB.insertBlock t b).1 = some b
  all : ChainDB.loadAllBlocks (ChainDB.insertBlock t b).1 = ChainDB.loadAllBlocks t ++ [b]
  stillValid : validateSingleBlock E b = .ok none →
    ∀ c, ChainDB.findBlockByHash (ChainDB.insertBlock t b).1 b.hash = some c →
      validateSingleBlock E c = .ok none

/-- A stored block is given back if and only if it has no NUL and its time fits the column. -/
theorem stored_block_given_back_iff (E : Env) {t : BlockTable} {b : Block}
    (hstored : (ChainDB.insertBlock t b).2 = true) : GivenBack E t b ↔ b.Storable := by
  have hload := ChainDB.loadAllBlocks_insertBlock hstored
  constructor
  · -- a storable block is bound and read without loss
    intro h
    -- a block that comes back is what SQLite made of it, hence storable
    have hread : (BlockRow.ofBlock b).toBlock = b :=
      List.singleton_inj.1 (List.append_cancel_left (hload.symm.trans h.all))
    rw [← hread]
    exact BlockRow.storable_toBlock _
  · intro h
    rw [BlockRow.toBlock_ofBlock h] at hload
    have hlast : b ∈ ChainDB.loadAllBlocks (ChainDB.insertBlock t b).1 := by
      rw [hload]
      simp
    have hfound := ChainDB.findBlockByHash_of_mem hlast (cString_of_noNul h.hash).symm
    refine ⟨hfound, ?_, hload, ?_⟩
    · rw [ChainDB.findTip_eq, hload, List.getLast?_concat]
    · intro hvalid c hc
      rw [hfound] at hc
      exact Option.some.inj hc ▸ hvalid

theorem stored_block_given_back_block : GivenBack testEnv KeyedTable.Table.empty FirstBlock.block :=
  (stored_block_given_back_iff testEnv (by decide)).2 FirstBlock.storable_block

/-- A signed first block whose payload hash ends in a NUL. -/
def FirstBlock.cut : Block where
  hash := "6d389716c4ca3bdbcd5f0fe9ac5ab970e667a4106648f67adaae43e5c7b8b33b"
  previousHash := "0"
  payloadHash := "0\x00"
  authorPublicKey := "0700000000000000000000000000000000000000000000000000000000000000"
  signature := "377c30007c7c3000000000000000000000000000000000000000000000000000"
  timestamp := 7

/-- It is valid and stored, and what is read under its hash is not valid. -/
theorem cut_block_not_given_back :
    validateSingleBlock testEnv FirstBlock.cut = .ok none ∧
      (ChainDB.insertBlock KeyedTable.Table.empty FirstBlock.cut).2 = true ∧
      ¬ GivenBack testEnv KeyedTable.Table.empty FirstBlock.cut := by
  refine ⟨by decide +kernel, by decide, ?_⟩
  intro h
  have hread : ChainDB.findBlockByHash
      (ChainDB.insertBlock KeyedTable.Table.empty FirstBlock.cut).1 FirstBlock.cut.hash ≠
        some FirstBlock.cut := by
    decide +kernel
  exact hread h.found

end BlockchainService
end Blockchain
end DChat
