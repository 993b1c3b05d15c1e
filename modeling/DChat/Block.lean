import DChat.Json
import DChat.Crypto
import DChat.Library.Separated

/-!
# Block — the records of the chain

A block names its predecessor by `previousHash`, the first one names the marker `"0"`.  The
author signs the canonical string, which joins four fields by `|`, and the block hash is the
digest of the same string.
-/

namespace DChat
namespace Blockchain

open Utils Crypto

/-- `blockchain::Block`. -/
structure Block where
  hash : String
  previousHash : String
  payloadHash : String
  authorPublicKey : String
  signature : String
  timestamp : UInt64
  deriving DecidableEq, Repr

namespace Block

/-- `Block()`. -/
def default : Block where
  hash := "0"
  previousHash := "0"
  payloadHash := "0"
  authorPublicKey := "0"
  signature := "0"
  timestamp := 0

/-- `Block(const json&)`. -/
def ofJson (jData : Json) : Except Exn Block := do
  let hash ← (← jData.field "hash").getString
  let previousHash ← (← jData.field "previousHash").getString
  let payloadHash ← (← jData.field "payloadHash").getString
  let authorPublicKey ← (← jData.field "authorPubKey").getString
  let signature ← (← jData.field "signature").getString
  let timestamp ← (← jData.field "timestamp").getUInt64
  return { hash, previousHash, payloadHash, authorPublicKey, signature, timestamp }

/-- `Block::toJson`. -/
def toJson (b : Block) : Json :=
  .object [("previousHash", .string b.previousHash), ("payloadHash", .string b.payloadHash),
    ("authorPubKey", .string b.authorPublicKey), ("signature", .string b.signature),
    ("timestamp", .unsigned b.timestamp), ("hash", .string b.hash)]

@[simp] theorem ofJson_toJson (b : Block) : ofJson b.toJson = .ok b := by
  simp [ofJson, toJson, Json.field, List.lookup_cons, bind, Except.bind, pure, Except.pure]

/-- `Block::toStringForHash`. -/
def toStringForHash (b : Block) : String :=
  b.previousHash ++ "|" ++ b.payloadHash ++ "|" ++ b.authorPublicKey ++ "|" ++
    toString b.timestamp.toNat

/-- The bytes that are signed and hashed. -/
def canonicalBytes (b : Block) : Bytes := bytesOf b.toStringForHash

/-- `Block::computeHash`. -/
def computeHash (E : Env) (b : Block) : Block := { b with hash := E.sha256 b.canonicalBytes }

/-- The strings that are hashed for a list of blocks. -/
def canonicals (bs : List Block) : Set Bytes := {x | ∃ b ∈ bs, b.canonicalBytes = x}

theorem canonicals_mono {bs cs : List Block} (h : bs ⊆ cs) : canonicals bs ⊆ canonicals cs := by
  rintro x ⟨b, hb, rfl⟩
  exact ⟨b, h hb, rfl⟩

/-- One block cannot collide with itself. -/
theorem collisionFree_singleton (E : Env) (b : Block) : E.CollisionFree (canonicals [b]) := by
  rintro x ⟨c, hc, rfl⟩ y ⟨d, hd, rfl⟩ _
  rw [List.mem_singleton.1 hc, List.mem_singleton.1 hd]

/-- Every string field is free of NUL and the timestamp fits a signed 64-bit column, so the
block survives storage. -/
structure Storable (b : Block) : Prop where
  hash : NoNul b.hash
  previousHash : NoNul b.previousHash
  payloadHash : NoNul b.payloadHash
  authorPublicKey : NoNul b.authorPublicKey
  signature : NoNul b.signature
  timestamp : b.timestamp.toNat < 2 ^ 63

/-- No string field has a NUL. -/
structure NulFree (b : Block) : Prop where
  hash : NoNul b.hash
  previousHash : NoNul b.previousHash
  payloadHash : NoNul b.payloadHash
  authorPublicKey : NoNul b.authorPublicKey
  signature : NoNul b.signature

theorem NulFree.storable {b : Block} (h : b.NulFree) (htime : b.timestamp.toNat < 2 ^ 63) :
    b.Storable where
  hash := h.hash
  previousHash := h.previousHash
  payloadHash := h.payloadHash
  authorPublicKey := h.authorPublicKey
  signature := h.signature
  timestamp := htime

theorem Storable.nulFree {b : Block} (h : b.Storable) : b.NulFree where
  hash := h.hash
  previousHash := h.previousHash
  payloadHash := h.payloadHash
  authorPublicKey := h.authorPublicKey
  signature := h.signature

/-- A parent without the separator can be split off the canonical string. -/
theorem previousHash_eq_of_canonical {a b : Block} (ha : '|' ∉ a.previousHash.toList)
    (hb : '|' ∉ b.previousHash.toList) (h : a.toStringForHash = b.toStringForHash) :
    a.previousHash = b.previousHash := by
  have hlist := congrArg String.toList h
  have hbar : "|".toList = ['|'] := rfl
  simp only [toStringForHash, String.toList_append, hbar, List.append_assoc,
    List.cons_append, List.nil_append] at hlist
  have hcount : a.previousHash.toList.count '|' = b.previousHash.toList.count '|' := by
    rw [List.count_eq_zero_of_not_mem ha, List.count_eq_zero_of_not_mem hb]
  exact String.toList_inj.1 (Separated.append_cons_inj hcount hlist).1

/-- So can what the database keeps of a parent. -/
theorem bind_previousHash_eq_of_canonical {a b : Block} (ha : '|' ∉ (cString a.previousHash).toList)
    (hb : '|' ∉ (cString b.previousHash).toList) (h : a.toStringForHash = b.toStringForHash) :
    DbText.bind a.previousHash = .bind b.previousHash := by
  have hcut : ∀ c : Block, '|' ∉ (cString c.previousHash).toList →
      c.toStringForHash.toList.takeWhile (fun x => (x ≠ '\x00') && x ≠ '|') =
        c.previousHash.toList.takeWhile (· ≠ '\x00') := by
    intro c hc
    have hbar : "|".toList = ['|'] := rfl
    simp only [toStringForHash, String.toList_append, hbar, List.append_assoc,
      List.cons_append, List.nil_append]
    rw [cString, String.toList_ofList] at hc
    exact Separated.takeWhile_append_cons _ _ hc
  have hlist := (hcut a ha).symm.trans ((congrArg _ (congrArg String.toList h)).trans (hcut b hb))
  exact DbText.ext (congrArg String.ofList hlist)

end Block

end Blockchain
end DChat
