import DChat.Block
import DChat.Library.KeyedTable
import DChat.Library.AtomicProg

/-!
# ChainDB — the block table

The `blocks` table gives every row an increasing id and keeps `hash` unique; nothing in the
schema keeps `previous_hash` unique, which `insertBlock` looks up before it inserts, except for
first blocks.

Each method is one call on the table, so the services that use several of them are programs
over `ChainOp` (see `Library/AtomicProg.lean`): run alone they are the functions of the source,
and several of them can take turns.
-/

namespace DChat
namespace Blockchain

open Utils Crypto KeyedTable AtomicProg

/-- A row of `blocks`. -/
structure BlockRow where
  hash : DbText
  previousHash : DbText
  payloadHash : DbText
  authorPublicKey : DbText
  signature : DbText
  timestamp : SqlNumber
  deriving DecidableEq, Repr

namespace BlockRow

def ofBlock (b : Block) : BlockRow where
  hash := .bind b.hash
  previousHash := .bind b.previousHash
  payloadHash := .bind b.payloadHash
  authorPublicKey := .bind b.authorPublicKey
  signature := .bind b.signature
  timestamp := .ofText b.timestamp

def toBlock (r : BlockRow) : Block where
  hash := r.hash.text
  previousHash := r.previousHash.text
  payloadHash := r.payloadHash.text
  authorPublicKey := r.authorPublicKey.text
  signature := r.signature.text
  timestamp := r.timestamp.stoull

@[simp] theorem toBlock_hash (r : BlockRow) : r.toBlock.hash = r.hash.text := rfl

@[simp] theorem toBlock_previousHash (r : BlockRow) :
    r.toBlock.previousHash = r.previousHash.text := rfl

@[simp] theorem ofBlock_hash (b : Block) : (ofBlock b).hash = .bind b.hash := rfl

@[simp] theorem ofBlock_previousHash (b : Block) :
    (ofBlock b).previousHash = .bind b.previousHash := rfl

theorem storable_toBlock (r : BlockRow) : r.toBlock.Storable where
  hash := r.hash.noNul
  previousHash := r.previousHash.noNul
  payloadHash := r.payloadHash.noNul
  authorPublicKey := r.authorPublicKey.noNul
  signature := r.signature.noNul
  timestamp := r.timestamp.toNat_stoull_lt

/-- A storable block is read back as it was. -/
theorem toBlock_ofBlock {b : Block} (h : b.Storable) : (ofBlock b).toBlock = b := by
  rcases h with ⟨hhash, hprev, hpayload, hauthor, hsig, htime⟩
  simp [ofBlock, toBlock, hhash, hprev, hpayload, hauthor, hsig,
    SqlNumber.stoull_ofText htime]

end BlockRow

/-- The `blocks` table: `hash TEXT NOT NULL UNIQUE`. -/
abbrev BlockTable := Table BlockRow.hash

namespace ChainDB

def loadAllBlocks (t : BlockTable) : List Block := t.data.map BlockRow.toBlock

def findTip (t : BlockTable) : Option Block := t.data.getLast?.map BlockRow.toBlock

def findBlockByHash (t : BlockTable) (hash : String) : Option Block :=
  (t.data.find? fun r => r.hash = .bind hash).map BlockRow.toBlock

def hasBlock (t : BlockTable) (hash : String) : Bool :=
  t.data.any fun r => r.hash = .bind hash

/-- The first statement of `insertBlock`: is there a row with this parent? -/
def selectChild (t : BlockTable) (previousHash : String) : Bool :=
  t.data.any fun r => r.previousHash = .bind previousHash

/-- The second statement of `insertBlock`. -/
def insertRow (t : BlockTable) (b : Block) : BlockTable × Bool := t.insert (BlockRow.ofBlock b)

def insertBlock (t : BlockTable) (b : Block) : BlockTable × Bool :=
  if b.previousHash ≠ "0" ∧ selectChild t b.previousHash then
    (t, false)
  else
    insertRow t b

def getBlocksByIndexRange (t : BlockTable) (start count : UInt32) (lastHash : String) :
    List Block :=
  if lastHash = "0" then
    -- LIMIT count OFFSET start
    ((t.data.drop start.toNat).take count.toNat).map BlockRow.toBlock
  else
    match t.rows.find? fun x => x.2.hash = .bind lastHash with
    | none => []
    | some x =>
        let startIndex : UInt64 := UInt64.ofNat x.1 + 1 + start.toUInt64
        ((t.rows.filter fun y => startIndex.toNat ≤ y.1).take count.toNat).map
          fun y => y.2.toBlock

def countBlocksAfterHash (t : BlockTable) (hash : String) : UInt32 :=
  if hash = "0" then
    UInt32.ofNat t.rows.length
  else
    match t.rows.find? fun x => x.2.hash = .bind hash with
    | none => UInt32.ofNat t.rows.length
    | some x =>
        -- `index` is an `unsigned int`, so a large id is cut
        let index := UInt32.ofNat x.1
        UInt32.ofNat (t.rows.filter fun y => index.toNat < y.1).length

/-! ## Lookups, in terms of the stored blocks -/

theorem hashes_nodup (t : BlockTable) : ((loadAllBlocks t).map Block.hash).Nodup := by
  have hkeys : ((t.data.map BlockRow.hash).map DbText.text).Nodup :=
    t.data_keys_nodup.map fun _ _ h => DbText.ext h
  simpa [loadAllBlocks, List.map_map, Function.comp_def] using hkeys

theorem storable_of_mem {t : BlockTable} {b : Block} (hb : b ∈ loadAllBlocks t) : b.Storable := by
  rcases List.mem_map.1 hb with ⟨r, _, rfl⟩
  exact r.storable_toBlock

theorem findTip_eq (t : BlockTable) : findTip t = (loadAllBlocks t).getLast? := by
  simp [findTip, loadAllBlocks, List.getLast?_map]

theorem selectChild_iff {t : BlockTable} {p : String} :
    selectChild t p = true ↔ ∃ c ∈ loadAllBlocks t, c.previousHash = cString p := by
  simp [selectChild, loadAllBlocks, DbText.eq_bind_iff]

theorem hasBlock_iff {t : BlockTable} {h : String} :
    hasBlock t h = true ↔ ∃ c ∈ loadAllBlocks t, c.hash = cString h := by
  simp [hasBlock, loadAllBlocks, DbText.eq_bind_iff]

theorem findBlockByHash_eq_none {t : BlockTable} {h : String} :
    findBlockByHash t h = none ↔ ∀ c ∈ loadAllBlocks t, c.hash ≠ cString h := by
  simp [findBlockByHash, loadAllBlocks, DbText.eq_bind_iff]

theorem findBlockByHash_some {t : BlockTable} {h : String} {b : Block}
    (hb : findBlockByHash t h = some b) : b ∈ loadAllBlocks t ∧ b.hash = cString h := by
  obtain ⟨r, hr, rfl⟩ := Option.map_eq_some_iff.1 hb
  have hhash : r.hash = .bind h := by simpa using List.find?_some hr
  exact ⟨List.mem_map.2 ⟨r, List.mem_of_find?_eq_some hr, rfl⟩, DbText.eq_bind_iff.1 hhash⟩

/-- The hash column is unique, so a stored block is the one its hash finds. -/
theorem findBlockByHash_of_mem {t : BlockTable} {h : String} {b : Block}
    (hb : b ∈ loadAllBlocks t) (hh : b.hash = cString h) : findBlockByHash t h = some b := by
  cases hfind : findBlockByHash t h with
  | none => exact absurd hh (findBlockByHash_eq_none.1 hfind b hb)
  | some c =>
      obtain ⟨hc, hch⟩ := findBlockByHash_some hfind
      have heq : c = b := List.inj_on_of_nodup_map (hashes_nodup t) hc hb (hch.trans hh.symm)
      rw [heq]

theorem fresh_iff {t : BlockTable} {b : Block} :
    t.Fresh (BlockRow.ofBlock b) ↔ ∀ c ∈ loadAllBlocks t, c.hash ≠ cString b.hash := by
  simp [Table.Fresh, loadAllBlocks, DbText.eq_bind_iff]

/-! ## What an insertion does -/

/-- A refused insertion leaves the table alone. -/
theorem insertBlock_of_false {t : BlockTable} {b : Block} (h : (insertBlock t b).2 = false) :
    (insertBlock t b).1 = t := by
  by_cases hchild : b.previousHash ≠ "0" ∧ selectChild t b.previousHash
  · simp [insertBlock, hchild]
  · rw [insertBlock, if_neg hchild, insertRow] at h ⊢
    by_cases hfresh : t.Fresh (BlockRow.ofBlock b)
    · rw [Table.insert_snd.2 hfresh] at h
      cases h
    · rw [Table.insert_of_not_fresh hfresh]

/-- When an insertion succeeds. -/
theorem insertBlock_eq_true {t : BlockTable} {b : Block} :
    (insertBlock t b).2 = true ↔
      (b.previousHash = "0" ∨ ∀ c ∈ loadAllBlocks t, c.previousHash ≠ cString b.previousHash) ∧
        ∀ c ∈ loadAllBlocks t, c.hash ≠ cString b.hash := by
  by_cases hchild : b.previousHash ≠ "0" ∧ selectChild t b.previousHash
  · obtain ⟨hne, hsel⟩ := hchild
    obtain ⟨c, hc, hpar⟩ := selectChild_iff.1 hsel
    have hno : ¬ (b.previousHash = "0" ∨
        ∀ c ∈ loadAllBlocks t, c.previousHash ≠ cString b.previousHash) := by
      rintro (h0 | hall)
      · exact hne h0
      · exact hall c hc hpar
    have hfalse : (insertBlock t b).2 = false := by simp [insertBlock, hne, hsel]
    rw [hfalse]
    exact ⟨fun h => absurd h (by simp), fun h => absurd h.1 hno⟩
  · have hyes : b.previousHash = "0" ∨
        ∀ c ∈ loadAllBlocks t, c.previousHash ≠ cString b.previousHash := by
      rcases not_and_or.1 hchild with h0 | hsel
      · exact Or.inl (not_not.1 h0)
      · exact Or.inr fun c hc hpar => hsel (selectChild_iff.2 ⟨c, hc, hpar⟩)
    rw [insertBlock, if_neg hchild, insertRow, Table.insert_snd, fresh_iff]
    exact ⟨fun h => ⟨hyes, h⟩, fun h => h.2⟩

/-- A successful insertion appends what the block's row is read back as. -/
theorem loadAllBlocks_insertBlock {t : BlockTable} {b : Block}
    (h : (insertBlock t b).2 = true) :
    loadAllBlocks (insertBlock t b).1 = loadAllBlocks t ++ [(BlockRow.ofBlock b).toBlock] := by
  have hfresh : t.Fresh (BlockRow.ofBlock b) := fresh_iff.2 (insertBlock_eq_true.1 h).2
  have hno : ¬ (b.previousHash ≠ "0" ∧ selectChild t b.previousHash) := by
    intro hchild
    simp [insertBlock, hchild] at h
  rw [insertBlock, if_neg hno, insertRow, loadAllBlocks, Table.data_insert_of_fresh hfresh]
  simp [loadAllBlocks]

/-- When the block's hash is in the table afterwards, stored now or before. -/
theorem hasBlock_insertBlock {t : BlockTable} {b : Block} :
    hasBlock (insertBlock t b).1 b.hash = true ↔
      hasBlock t b.hash = true ∨ b.previousHash = "0" ∨
        ∀ c ∈ loadAllBlocks t, c.previousHash ≠ cString b.previousHash := by
  by_cases hhas : hasBlock t b.hash = true
  · have hfalse : (insertBlock t b).2 = false := by
      obtain ⟨c, hc, hch⟩ := hasBlock_iff.1 hhas
      refine Bool.eq_false_iff.2 fun htrue => ?_
      exact (insertBlock_eq_true.1 htrue).2 c hc hch
    rw [insertBlock_of_false hfalse]
    exact ⟨fun h => Or.inl h, fun _ => hhas⟩
  · have hfresh : ∀ c ∈ loadAllBlocks t, c.hash ≠ cString b.hash :=
      fun c hc hch => hhas (hasBlock_iff.2 ⟨c, hc, hch⟩)
    cases hstored : (insertBlock t b).2 with
    | false =>
        rw [insertBlock_of_false hstored]
        refine ⟨fun h => absurd h hhas, ?_⟩
        rintro (h | h)
        · exact absurd h hhas
        · rw [insertBlock_eq_true.2 ⟨h, hfresh⟩] at hstored
          cases hstored
    | true =>
        refine ⟨fun _ => Or.inr (insertBlock_eq_true.1 hstored).1, fun _ => ?_⟩
        rw [hasBlock_iff, loadAllBlocks_insertBlock hstored]
        exact ⟨_, List.mem_append_right _ (List.mem_singleton.2 rfl), rfl⟩

theorem loadAllBlocks_prefix {t t' : BlockTable} (h : t.data <+: t'.data) :
    loadAllBlocks t <+: loadAllBlocks t' := h.map _

/-- The rows of a table that only grows. -/
theorem grows_refl (t : BlockTable) : t.data <+: t.data := List.prefix_rfl

theorem grows_trans {t t' t'' : BlockTable} (h : t.data <+: t'.data) (h' : t'.data <+: t''.data) :
    t.data <+: t''.data := h.trans h'

/-- Insertions only ever append. -/
theorem data_prefix_insertBlock (t : BlockTable) (b : Block) :
    t.data <+: (insertBlock t b).1.data := by
  by_cases hchild : b.previousHash ≠ "0" ∧ selectChild t b.previousHash
  · simp [insertBlock, hchild]
  · rw [insertBlock, if_neg hchild]
    exact Table.data_prefix_insert _ _

end ChainDB

/-! ## The methods as atomic calls -/

/-- The calls that the services interleave. -/
inductive ChainOp
  | findTip
  | findBlockByHash (hash : String)
  | hasBlock (hash : String)
  | insertBlock (b : Block)

/-- What a call answers; the out-parameter of a lookup comes with its success flag. -/
def ChainOp.Res : ChainOp → Type
  | .findTip => Option Block
  | .findBlockByHash _ => Option Block
  | .hasBlock _ => Bool
  | .insertBlock _ => Bool

/-- A program over the chain repository. -/
abbrev ChainProg := Prog ChainOp ChainOp.Res

/-- The effect of one call. -/
def ChainOp.exec : (op : ChainOp) → BlockTable → op.Res × BlockTable
  | .findTip, t => (ChainDB.findTip t, t)
  | .findBlockByHash h, t => (ChainDB.findBlockByHash t h, t)
  | .hasBlock h, t => (ChainDB.hasBlock t h, t)
  | .insertBlock b, t => ((ChainDB.insertBlock t b).2, (ChainDB.insertBlock t b).1)

end Blockchain
end DChat
