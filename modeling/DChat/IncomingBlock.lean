import DChat.Sync

/-!
# IncomingBlock — what a node does with one block when nothing comes in between

Run alone, `onIncomingBlock` either refuses a block and leaves the chain as it is, or finds it
acceptable and inserts it (`onIncomingBlock_cases`).  On a valid chain the insertion of an
acceptable block succeeds, so the answer `{}` then means what it says.
-/

namespace DChat
namespace Blockchain
namespace BlockchainService

open Utils Crypto Peer Messaging LinkedChain AtomicProg

variable {E : Env}

/-- What the three checks of `validateIncomingBlock` ask for.  A parent that the database cuts at a
NUL names the tip by its stored form. -/
structure Acceptable (E : Env) (now : ClockReading) (t : BlockTable) (block : Block) : Prop where
  authentic : Authentic E block
  timely : ¬ getTimestamp now + 300000 < block.timestamp
  namesTip : block.previousHash = tipHash t ∨
    cString block.previousHash = tipHash t ∧ ∃ c ∈ ChainDB.loadAllBlocks t, c.hash = tipHash t
  fresh : ∀ c ∈ ChainDB.loadAllBlocks t, c.hash ≠ cString block.hash

/-! ## The program run alone -/

theorem run_refuseDuplicate (t : BlockTable) (block : Block) :
    ∃ verdict, (refuseDuplicate block).run ChainOp.exec t = (verdict, t) ∧
      (verdict = none ↔ ∀ c ∈ ChainDB.loadAllBlocks t, c.hash ≠ cString block.hash) := by
  have hrun : (refuseDuplicate block).run ChainOp.exec t =
      (if ChainDB.hasBlock t block.hash then some "Block already exists in local chain" else none,
        t) := by
    cases hhas : ChainDB.hasBlock t block.hash <;>
      simp [refuseDuplicate, hhas]
  refine ⟨_, hrun, ?_⟩
  cases hhas : ChainDB.hasBlock t block.hash with
  | true =>
      rcases ChainDB.hasBlock_iff.1 hhas with ⟨c, hc, hhash⟩
      simpa using ⟨c, hc, hhash⟩
  | false =>
      refine ⟨fun _ c hc hhash => ?_, fun _ => rfl⟩
      rw [ChainDB.hasBlock_iff.2 ⟨c, hc, hhash⟩] at hhas
      cases hhas

theorem run_validateLink (t : BlockTable) (block : Block) :
    ∃ verdict, (validateLink block).run ChainOp.exec t = (verdict, t) ∧
      (verdict = none ↔
        (block.previousHash = tipHash t ∨
          cString block.previousHash = tipHash t ∧
            ∃ c ∈ ChainDB.loadAllBlocks t, c.hash = tipHash t) ∧
        ∀ c ∈ ChainDB.loadAllBlocks t, c.hash ≠ cString block.hash) := by
  rcases run_refuseDuplicate t block with ⟨verdict, hrefuse, hfresh⟩
  by_cases hprev : block.previousHash = tipHash t
  · -- the usual case: the block names the tip
    refine ⟨verdict, ?_, by simp [hprev, hfresh]⟩
    have hlink : block.previousHash = ((ChainDB.findTip t).getD Block.default).hash := by
      rw [findTip_hash, hprev]
    simpa [validateLink, hlink] using hrefuse
  · have hlink : block.previousHash ≠ ((ChainDB.findTip t).getD Block.default).hash := by
      rwa [findTip_hash]
    cases hfind : ChainDB.findBlockByHash t block.previousHash with
    | none =>
        refine ⟨some "Previous block not found in local chain", ?_, ?_⟩
        · simp [validateLink, hlink, hfind]
        · have hno := ChainDB.findBlockByHash_eq_none.1 hfind
          simp only [reduceCtorEq, false_iff, not_and, hprev, false_or]
          rintro ⟨hcut, c, hc, hhash⟩
          exact absurd (hhash.trans hcut.symm) (hno c hc)
    | some prevBlock =>
        -- the parent is found after all: its name is the tip followed by a NUL, or it is a fork
        rcases ChainDB.findBlockByHash_some hfind with ⟨hmem, hhash⟩
        by_cases hfork : prevBlock.hash = tipHash t
        · refine ⟨verdict, ?_, ?_⟩
          · have htip : prevBlock.hash = ((ChainDB.findTip t).getD Block.default).hash := by
              rw [findTip_hash, hfork]
            simpa [validateLink, hlink, hfind, htip] using hrefuse
          · have hcut : cString block.previousHash = tipHash t := hhash.symm.trans hfork
            have hnames : cString block.previousHash = tipHash t ∧
                ∃ c ∈ ChainDB.loadAllBlocks t, c.hash = tipHash t := ⟨hcut, prevBlock, hmem, hfork⟩
            simp only [hfresh, hnames, or_true, true_and]
        · refine ⟨some "Block extends non-tip block (fork detected)", ?_, ?_⟩
          · have htip : prevBlock.hash ≠ ((ChainDB.findTip t).getD Block.default).hash := by
              rwa [findTip_hash]
            simp [validateLink, hlink, hfind, htip]
          · simp only [reduceCtorEq, false_iff, not_and, hprev, false_or]
            rintro ⟨hcut, _⟩
            exact absurd (hhash.trans hcut) hfork

theorem run_validateIncomingBlock (now : ClockReading) (t : BlockTable) (block : Block) :
    ∃ verdict, (validateIncomingBlock E now block).run ChainOp.exec t = (verdict, t) ∧
      (verdict = .ok none ↔ Acceptable E now t block) := by
  -- the cases follow the checks of the source, each of which ends the call when it fails
  cases hsingle : validateSingleBlock E block with
  | error e =>
      refine ⟨.error e, by simp [validateIncomingBlock, hsingle], ?_⟩
      simp only [reduceCtorEq, false_iff]
      intro h
      exact absurd (hsingle.symm.trans h.authentic) (by simp)
  | ok single =>
      cases single with
      | some error =>
          refine ⟨.ok (some error), by simp [validateIncomingBlock, hsingle], ?_⟩
          simp only [Except.ok.injEq, reduceCtorEq, false_iff]
          intro h
          exact absurd (hsingle.symm.trans h.authentic) (by simp)
      | none =>
          by_cases htime : getTimestamp now + 300000 < block.timestamp
          · refine ⟨.ok (some "Block timestamp is too far in the future"),
              by simp [validateIncomingBlock, hsingle, htime], ?_⟩
            simp only [Except.ok.injEq, reduceCtorEq, false_iff]
            intro h
            exact h.timely htime
          · rcases run_validateLink t block with ⟨verdict, hrun, hverdict⟩
            refine ⟨.ok verdict, ?_, ?_⟩
            · simp [validateIncomingBlock, hsingle, htime, Prog.run_bind, hrun]
            · rw [Except.ok.injEq, hverdict]
              constructor
              · rintro ⟨hnames, hfresh⟩
                exact ⟨hsingle, htime, hnames, hfresh⟩
              · intro h
                exact ⟨h.namesTip, h.fresh⟩

/-- A block is inserted when it is acceptable and refused when not. -/
theorem onIncomingBlock_cases (me : UserPeer) (now : ClockReading) (tick : Tick) (t : BlockTable)
    {jData : Json} {block : Block} (hblock : Block.ofJson jData = .ok block) :
    (Acceptable E now t block ∧
      (onIncomingBlock E me now tick jData).run ChainOp.exec t =
        (.object [], (ChainDB.insertBlock t block).1)) ∨
    (¬ Acceptable E now t block ∧ ∃ error hash,
      (onIncomingBlock E me now tick jData).run ChainOp.exec t =
        (refusal me tick error hash, t)) := by
  rcases run_validateIncomingBlock (E := E) now t block with ⟨verdict, hrun, hverdict⟩
  -- a key that does not decode, an error of the validation, or none
  rcases verdict with e | error | _
  · right
    refine ⟨fun h => absurd (hverdict.2 h) (by simp), e.what, "-1", ?_⟩
    simp [onIncomingBlock, hblock, Prog.run_bind, hrun]
  · left
    refine ⟨hverdict.1 rfl, ?_⟩
    simp only [onIncomingBlock, hblock, Prog.run_bind, hrun]
    rfl
  · right
    rename_i error
    refine ⟨fun h => absurd (hverdict.2 h) (by simp), error, block.hash, ?_⟩
    simp [onIncomingBlock, hblock, Prog.run_bind, hrun]

/-- Whatever the request holds, the chain only grows. -/
theorem onIncomingBlock_grows (me : UserPeer) (now : ClockReading) (tick : Tick) (t : BlockTable)
    (jData : Json) :
    t.data <+: ((onIncomingBlock E me now tick jData).run ChainOp.exec t).2.data := by
  cases hblock : Block.ofJson jData with
  | error e => simp [onIncomingBlock, hblock]
  | ok block =>
      rcases onIncomingBlock_cases (E := E) me now tick t hblock with
        ⟨_, hrun⟩ | ⟨_, error, hash, hrun⟩
      · rw [hrun]
        exact ChainDB.data_prefix_insertBlock t block
      · rw [hrun]

/-! ## On a valid chain -/

/-- An acceptable block finds no sibling. -/
theorem Acceptable.insertBlock {now : ClockReading} {t : BlockTable} {block : Block}
    (h : Acceptable E now t block) (hvalid : ValidBlocks E (ChainDB.loadAllBlocks t)) :
    (ChainDB.insertBlock t block).2 = true := by
  refine ChainDB.insertBlock_eq_true.2 ⟨?_, h.fresh⟩
  by_cases hne : ChainDB.loadAllBlocks t = []
  · rcases h.namesTip with hprev | ⟨_, c, hc, _⟩
    · left
      simpa [tipHash, hne] using hprev
    · rw [hne] at hc
      cases hc
  · right
    have hcut : cString block.previousHash = tipHash t := by
      rcases h.namesTip with hprev | ⟨hcut, _⟩
      · rw [hprev]
        exact cString_of_noNul hvalid.noNul_tip
      · exact hcut
    rw [hcut]
    exact hvalid.linked.grounded.parent_ne_tip (ChainDB.hashes_nodup t) hvalid.hash_ne_zero hne

/-- A block that was made over the tip of a valid chain is acceptable, when no digests collide. -/
theorem acceptable_of_continues {now : ClockReading} {t : BlockTable} {block : Block}
    (hvalid : ValidBlocks E (ChainDB.loadAllBlocks t ++ [block]))
    (hS : E.CollisionFree (Block.canonicals (ChainDB.loadAllBlocks t ++ [block])))
    (htime : block.timestamp.toNat ≤ now.millis + 300000) : Acceptable E now t block where
  authentic := hvalid.authentic block (by simp)
  timely := by
    rw [UInt64.lt_iff_toNat_lt, toNat_getTimestamp_add]
    omega
  namesTip := Or.inl (linkedFrom_concat.1 hvalid.linked).2
  fresh := by
    have hnodup := hvalid.nodup_hash hS
    rw [List.map_append, List.nodup_append'] at hnodup
    have hauth := hvalid.authentic block (by simp)
    intro c hc heq
    rw [cString_of_noNul hauth.noNul_hash] at heq
    exact hnodup.2.2 (List.mem_map_of_mem hc) (by simp [heq])

/-! ## Exactly the right blocks -/

/-- A block that a node should take: signed by its author, named by its digest, not from the
future, and the next one after the tip. -/
structure NextBlock (E : Env) (now : ClockReading) (t : BlockTable) (block : Block) : Prop where
  signed : ∃ sig pub, E.crypto.stringToKey block.signature = .ok sig ∧
    E.crypto.stringToKey block.authorPublicKey = .ok pub ∧
    E.crypto.verify block.canonicalBytes sig pub = true
  hashed : block.hash = E.sha256 block.canonicalBytes
  timely : block.timestamp.toNat ≤ now.millis + 300000
  onTip : block.previousHash = tipHash t

theorem NextBlock.authentic {now : ClockReading} {t : BlockTable} {block : Block}
    (h : NextBlock E now t block) : Authentic E block :=
  authentic_iff.2 ⟨verifyBlockSignature_eq_true.2 h.signed, h.hashed.symm⟩

/-- None of the further checks refuses such a block, and none of them lets another one in. -/
theorem acceptable_iff_nextBlock {now : ClockReading} {t : BlockTable} {block : Block}
    (hvalid : ValidBlocks E (ChainDB.loadAllBlocks t)) (hnul : block.NulFree)
    (hS : E.CollisionFree (Block.canonicals (ChainDB.loadAllBlocks t ++ [block]))) :
    Acceptable E now t block ↔ NextBlock E now t block := by
  constructor
  · intro h
    rcases authentic_iff.1 h.authentic with ⟨hsigned, hhash⟩
    refine ⟨verifyBlockSignature_eq_true.1 hsigned, hhash.symm, ?_, ?_⟩
    · have htimely := UInt64.not_lt.1 h.timely
      rwa [UInt64.le_iff_toNat_le, toNat_getTimestamp_add] at htimely
    · rcases h.namesTip with hprev | ⟨hcut, _⟩
      · exact hprev
      · rwa [cString_of_noNul hnul.previousHash] at hcut
  · intro h
    -- the hash of such a block is new, since its parent has no child yet
    exact acceptable_of_continues (hvalid.concat h.authentic h.onTip) hS h.timely

/-- Run alone on a valid chain, `onIncomingBlock` appends the next block and answers `{}`, and
refuses every other block without a trace. -/
theorem incoming_block_taken_iff (me : UserPeer) (now : ClockReading) (tick : Tick)
    {t : BlockTable} {jData : Json} {block : Block}
    (hvalid : validateLocalChain E t = .ok true) (hblock : Block.ofJson jData = .ok block)
    (hnul : block.NulFree)
    (hS : E.CollisionFree (Block.canonicals (ChainDB.loadAllBlocks t ++ [block]))) :
    (((onIncomingBlock E me now tick jData).run ChainOp.exec t).1 = .object [] ∧
        ChainDB.loadAllBlocks ((onIncomingBlock E me now tick jData).run ChainOp.exec t).2 =
          ChainDB.loadAllBlocks t ++ [block] ↔ NextBlock E now t block) ∧
      (¬ NextBlock E now t block →
        ((onIncomingBlock E me now tick jData).run ChainOp.exec t).2 = t ∧
        ((onIncomingBlock E me now tick jData).run ChainOp.exec t).1.field "type" =
          .ok (.string MessageType.blockchainErrorResponse.toString)) := by
  have hblocks := validateLocalChain_eq_true.1 hvalid
  have hnext : Acceptable E now t block ↔ NextBlock E now t block :=
    acceptable_iff_nextBlock hblocks hnul hS
  rcases onIncomingBlock_cases (E := E) me now tick t hblock with
    ⟨hacc, hrun⟩ | ⟨hno, error, hash, hrun⟩
  · rw [hrun]
    have hright := hnext.1 hacc
    -- a block that is not from the future has a time that fits the column
    have hstorable : block.Storable := by
      have hnow := now.representable
      have htimely := hright.timely
      exact hnul.storable (by omega)
    have hload := ChainDB.loadAllBlocks_insertBlock (hacc.insertBlock hblocks)
    rw [BlockRow.toBlock_ofBlock hstorable] at hload
    exact ⟨iff_of_true ⟨rfl, hload⟩ hright, fun hwrong => absurd hright hwrong⟩
  · rw [hrun]
    have hwrong := fun h => hno (hnext.2 h)
    refine ⟨iff_of_false ?_ hwrong, fun _ => ⟨rfl, rfl⟩⟩
    rintro ⟨hanswer, _⟩
    exact refusal_ne_empty me tick error hash hanswer

theorem incoming_block_taken_child :
    ((onIncomingBlock testEnv FirstBlock.config.me FirstBlock.now (FirstBlock.tick "e1")
        FirstBlock.child.toJson).run ChainOp.exec FirstBlock.table).1 = .object [] ∧
      ChainDB.loadAllBlocks ((onIncomingBlock testEnv FirstBlock.config.me FirstBlock.now
        (FirstBlock.tick "e1") FirstBlock.child.toJson).run ChainOp.exec FirstBlock.table).2 =
          ChainDB.loadAllBlocks FirstBlock.table ++ [FirstBlock.child] := by
  have hS : testEnv.CollisionFree (Block.canonicals
      (ChainDB.loadAllBlocks FirstBlock.table ++ [FirstBlock.child])) := by
    rw [FirstBlock.loadAllBlocks_table]
    exact collisionFree_child
  refine (incoming_block_taken_iff FirstBlock.config.me FirstBlock.now (FirstBlock.tick "e1")
    FirstBlock.valid_table (Block.ofJson_toJson FirstBlock.child)
    FirstBlock.storable_child.nulFree hS).1.2 ?_
  rcases authentic_iff.1 FirstBlock.blockOf_child.authentic with ⟨hsigned, hhash⟩
  refine ⟨verifyBlockSignature_eq_true.1 hsigned, hhash.symm, by decide, ?_⟩
  rw [FirstBlock.tipHash_table]
  rfl

end BlockchainService
end Blockchain
end DChat
