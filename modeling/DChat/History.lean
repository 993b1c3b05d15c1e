import DChat.ChainValidity

/-!
# History — the last hash commits to the whole chain

Two valid chains that end in one hash are the same chain as far as the hashed fields go: every
block hash is the digest of a canonical string that starts with the parent, a parent is
hexadecimal or the marker, and no digest is the marker.
-/

namespace DChat
namespace Blockchain
namespace BlockchainService

open Utils Crypto LinkedChain

variable {E : Env}

/-- On authentic blocks with separator-free parents, the hash determines the parent. -/
theorem previousHash_eq_of_hash_eq {S : Set Bytes} (hS : E.CollisionFree S) {a b : Block}
    (ha : Authentic E a) (hb : Authentic E b) (haS : a.canonicalBytes ∈ S)
    (hbS : b.canonicalBytes ∈ S) (hbarA : '|' ∉ a.previousHash.toList)
    (hbarB : '|' ∉ b.previousHash.toList) (hhash : a.hash = b.hash) :
    a.previousHash = b.previousHash :=
  Block.previousHash_eq_of_canonical hbarA hbarB
    (ha.toStringForHash_eq hS hb haS hbS hhash)

/-- Valid chains with one tip agree in everything that is hashed. -/
theorem ValidBlocks.map_eq_of_tip_eq {A B : List Block} (hA : ValidBlocks E A)
    (hB : ValidBlocks E B) (hS : E.CollisionFree (Block.canonicals (A ++ B)))
    (htip : tip Block.hash "0" A = tip Block.hash "0" B) :
    A.map (fun b => (b.hash, b.previousHash, b.toStringForHash)) =
      B.map fun b => (b.hash, b.previousHash, b.toStringForHash) := by
  have hmemA : ∀ a ∈ A, a.canonicalBytes ∈ Block.canonicals (A ++ B) :=
    fun a ha => ⟨a, List.mem_append_left _ ha, rfl⟩
  have hmemB : ∀ b ∈ B, b.canonicalBytes ∈ Block.canonicals (A ++ B) :=
    fun b hb => ⟨b, List.mem_append_right _ hb, rfl⟩
  -- equal hashes fix the hashed string, and with it the parent
  have hcanon : ∀ a ∈ A, ∀ b ∈ B, a.hash = b.hash → a.toStringForHash = b.toStringForHash :=
    fun a ha b hb => (hA.authentic a ha).toStringForHash_eq hS (hB.authentic b hb)
      (hmemA a ha) (hmemB b hb)
  have hparent : ∀ a ∈ A, ∀ b ∈ B, a.hash = b.hash → a.previousHash = b.previousHash :=
    fun a ha b hb => previousHash_eq_of_hash_eq hS (hA.authentic a ha) (hB.authentic b hb)
      (hmemA a ha) (hmemB b hb) (hA.bar_not_mem_previousHash a ha)
      (hB.bar_not_mem_previousHash b hb)
  -- two linked chains are walked back together from their common tip
  refine LinkedChain.map_eq_of_tip_eq _ hA.linked hB.linked hA.hash_ne_zero hB.hash_ne_zero
    hparent ?_ htip
  intro a ha b hb hhash
  rw [hhash, hparent a ha b hb hhash, hcanon a ha b hb hhash]

/-- Without collisions a valid chain has no hash twice. -/
theorem ValidBlocks.nodup_hash {A : List Block} (hA : ValidBlocks E A)
    (hS : E.CollisionFree (Block.canonicals A)) : (A.map Block.hash).Nodup := by
  apply nodup_ident hA.linked hA.hash_ne_zero
  intro a ha b hb hhash
  exact previousHash_eq_of_hash_eq hS (hA.authentic a ha) (hA.authentic b hb) ⟨a, ha, rfl⟩
    ⟨b, hb, rfl⟩ (hA.bar_not_mem_previousHash a ha) (hA.bar_not_mem_previousHash b hb) hhash

/-- Conversely, authentic blocks with distinct hashes have no collisions among them. -/
theorem collisionFree_of_nodup {A : List Block} (hA : ∀ a ∈ A, Authentic E a)
    (hnodup : (A.map Block.hash).Nodup) : E.CollisionFree (Block.canonicals A) := by
  rintro x ⟨a, ha, rfl⟩ y ⟨b, hb, rfl⟩ hdigest
  have hhash : a.hash = b.hash := by rw [← (hA a ha).hash_eq, ← (hA b hb).hash_eq, hdigest]
  rw [List.inj_on_of_nodup_map hnodup ha hb hhash]

/-- Two valid stores whose last blocks have one hash hold the same history. -/
theorem equal_tips_equal_histories {t t' : BlockTable} {a b : Block}
    (hvalid : validateLocalChain E t = .ok true) (hvalid' : validateLocalChain E t' = .ok true)
    (ha : ChainDB.findTip t = some a) (hb : ChainDB.findTip t' = some b)
    (hS : E.CollisionFree
      (Block.canonicals (ChainDB.loadAllBlocks t ++ ChainDB.loadAllBlocks t')))
    (hhash : a.hash = b.hash) :
    (ChainDB.loadAllBlocks t).length = (ChainDB.loadAllBlocks t').length ∧
      ∀ i (hi : i < (ChainDB.loadAllBlocks t).length)
        (hi' : i < (ChainDB.loadAllBlocks t').length),
        (ChainDB.loadAllBlocks t)[i].hash = (ChainDB.loadAllBlocks t')[i].hash ∧
        (ChainDB.loadAllBlocks t)[i].previousHash =
          (ChainDB.loadAllBlocks t')[i].previousHash ∧
        (ChainDB.loadAllBlocks t)[i].toStringForHash =
          (ChainDB.loadAllBlocks t')[i].toStringForHash := by
  have hA := validateLocalChain_eq_true.1 hvalid
  have hB := validateLocalChain_eq_true.1 hvalid'
  have htip : tipHash t = tipHash t' := by
    rw [← findTip_hash t, ← findTip_hash t', ha, hb]
    exact hhash
  have hmap := hA.map_eq_of_tip_eq hB hS htip
  refine ⟨by simpa using congrArg List.length hmap, ?_⟩
  intro i hi hi'
  have hentry := List.getElem_of_eq hmap (i := i) (by simpa using hi)
  simpa using hentry

/-- A store in which both blocks were deleted and stored again, under larger row ids. -/
def FirstBlock.restored : BlockTable :=
  let emptied := FirstBlock.longTable.deleteWhere fun _ => true
  (ChainDB.insertBlock (ChainDB.insertBlock emptied FirstBlock.block).1 FirstBlock.child).1

theorem FirstBlock.loadAllBlocks_restored :
    ChainDB.loadAllBlocks FirstBlock.restored = [FirstBlock.block, FirstBlock.child] :=
  FirstBlock.loadAllBlocks_insert_child (FirstBlock.loadAllBlocks_insert (by
    simp [ChainDB.loadAllBlocks, KeyedTable.Table.data, KeyedTable.Table.deleteWhere]))

theorem equal_tips_equal_histories_restored :
    (ChainDB.loadAllBlocks FirstBlock.longTable).length =
        (ChainDB.loadAllBlocks FirstBlock.restored).length ∧
      ∀ i (_hi : i < (ChainDB.loadAllBlocks FirstBlock.longTable).length)
        (hi' : i < (ChainDB.loadAllBlocks FirstBlock.restored).length),
        (ChainDB.loadAllBlocks FirstBlock.longTable)[i].hash =
          (ChainDB.loadAllBlocks FirstBlock.restored)[i].hash ∧
        (ChainDB.loadAllBlocks FirstBlock.longTable)[i].previousHash =
          (ChainDB.loadAllBlocks FirstBlock.restored)[i].previousHash ∧
        (ChainDB.loadAllBlocks FirstBlock.longTable)[i].toStringForHash =
          (ChainDB.loadAllBlocks FirstBlock.restored)[i].toStringForHash := by
  have htip : ∀ t, ChainDB.loadAllBlocks t = [FirstBlock.block, FirstBlock.child] →
      ChainDB.findTip t = some FirstBlock.child := by
    intro t ht
    rw [ChainDB.findTip_eq, ht]
    rfl
  have hboth : testEnv.CollisionFree (Block.canonicals [FirstBlock.block, FirstBlock.child]) := by
    refine collisionFree_of_nodup (fun b hb => ?_) (by decide)
    rcases List.mem_pair.1 hb with rfl | rfl
    · exact FirstBlock.blockOf_block.authentic
    · exact FirstBlock.blockOf_child.authentic
  have hS : testEnv.CollisionFree (Block.canonicals
      (ChainDB.loadAllBlocks FirstBlock.longTable ++
        ChainDB.loadAllBlocks FirstBlock.restored)) := by
    rw [FirstBlock.loadAllBlocks_longTable, FirstBlock.loadAllBlocks_restored]
    exact hboth.mono (Block.canonicals_mono (by simp))
  exact equal_tips_equal_histories (FirstBlock.valid_of_load FirstBlock.loadAllBlocks_longTable)
    (FirstBlock.valid_of_load FirstBlock.loadAllBlocks_restored)
    (htip _ FirstBlock.loadAllBlocks_longTable) (htip _ FirstBlock.loadAllBlocks_restored) hS rfl

end BlockchainService
end Blockchain
end DChat
