import DChat.ChainValidity

/-!
# Commitment — what the two hashes of a block fix

The block hash is the digest of four fields joined by `|`, none of which is checked for a `|`.  So
it fixes the joined string, and the fields as soon as it is known how many separators the first two
of them hold.

The payload hash is the digest of the text up to its first NUL, because the text goes through a
`char` pointer.  So it fixes the text up to there, when the block is made as well as when it is
compared.
-/

namespace DChat
namespace Blockchain

open Utils Crypto Messaging AtomicProg

/-! ## The fields of a block -/

namespace Block

/-- The number of separators in a field. -/
def bars (s : String) : Nat := s.toList.count '|'

/-- The fields of the canonical string, in their order. -/
def hashedFields (b : Block) : List (List Char) :=
  [b.previousHash.toList, b.payloadHash.toList, b.authorPublicKey.toList,
    (toString b.timestamp.toNat).toList]

theorem toStringForHash_toList (b : Block) :
    b.toStringForHash.toList = ['|'].intercalate b.hashedFields := by
  have hbar : "|".toList = ['|'] := rfl
  simp [toStringForHash, hashedFields, hbar]

/-- A number is written without separators. -/
theorem bars_toString (n : Nat) : bars (toString n) = 0 := by
  apply List.count_eq_zero_of_not_mem
  intro hmem
  have hdigits : '|' ∈ Nat.toDigits 10 n := by simpa using hmem
  exact absurd (Nat.isDigit_of_mem_toDigits (by decide) (by decide) hdigits) (by decide)

theorem fields_eq_of_hashedFields {a b : Block} (h : a.hashedFields = b.hashedFields) :
    a.previousHash = b.previousHash ∧ a.payloadHash = b.payloadHash ∧
      a.authorPublicKey = b.authorPublicKey ∧ a.timestamp = b.timestamp := by
  simp only [hashedFields, List.cons.injEq, String.toList_inj, and_true] at h
  rcases h with ⟨hprev, hpayload, hauthor, htime⟩
  have hdigits : Nat.toDigits 10 a.timestamp.toNat = Nat.toDigits 10 b.timestamp.toNat := by
    simpa using congrArg String.toList htime
  have hnumber := congrArg (fun ds => Nat.ofDigitChars 10 ds 0) hdigits
  simp only [Nat.ofDigitChars_ten_toDigits] at hnumber
  exact ⟨hprev, hpayload, hauthor, UInt64.toNat_inj.1 hnumber⟩

/-- One canonical string comes from other fields only by moving a separator. -/
theorem fields_eq_iff {a b : Block} (h : a.toStringForHash = b.toStringForHash) :
    (a.previousHash = b.previousHash ∧ a.payloadHash = b.payloadHash ∧
      a.authorPublicKey = b.authorPublicKey ∧ a.timestamp = b.timestamp) ↔
      bars a.previousHash = bars b.previousHash ∧ bars a.payloadHash = bars b.payloadHash := by
  have hjoined : ['|'].intercalate a.hashedFields = ['|'].intercalate b.hashedFields := by
    rw [← toStringForHash_toList, ← toStringForHash_toList, h]
  constructor
  · rintro ⟨hprev, hpayload, _, _⟩
    rw [hprev, hpayload]
    exact ⟨rfl, rfl⟩
  · rintro ⟨hprev, hpayload⟩
    -- the time has no separator, so the author has as many as the total leaves
    have htotal : ∀ c : Block, (['|'].intercalate c.hashedFields).count '|' =
        bars c.previousHash + bars c.payloadHash + bars c.authorPublicKey + 3 := by
      intro c
      have hne : c.hashedFields ≠ [] := by simp [hashedFields]
      have hcount := Separated.count_intercalate (x := '|') hne
      have htime := bars_toString c.timestamp.toNat
      simp only [bars] at htime ⊢
      simp only [hashedFields, List.map_cons, List.map_nil, List.sum_cons, List.sum_nil,
        List.length_cons, List.length_nil, htime] at hcount ⊢
      omega
    have hauthor : bars a.authorPublicKey = bars b.authorPublicKey := by
      have hboth := (htotal a).symm.trans ((congrArg (List.count '|') hjoined).trans (htotal b))
      omega
    have htimes : bars (toString a.timestamp.toNat) = bars (toString b.timestamp.toNat) := by
      rw [bars_toString, bars_toString]
    apply fields_eq_of_hashedFields
    have hlength : a.hashedFields.length = b.hashedFields.length := rfl
    refine Separated.intercalate_inj hlength ?_ hjoined
    simp only [bars] at hprev hpayload hauthor htimes
    simp only [hashedFields, List.map_cons, List.map_nil, hprev, hpayload, hauthor, htimes]

end Block

namespace BlockchainService

variable {E : Env}

/-- Two blocks that pass the validation under one hash have the same hashed fields if and only if
their first two fields hold as many separators. -/
theorem hash_fixes_fields_iff {a b : Block} (hS : E.CollisionFree (Block.canonicals [a, b]))
    (ha : validateSingleBlock E a = .ok none) (hb : validateSingleBlock E b = .ok none)
    (hhash : a.hash = b.hash) :
    (a.previousHash = b.previousHash ∧ a.payloadHash = b.payloadHash ∧
      a.authorPublicKey = b.authorPublicKey ∧ a.timestamp = b.timestamp) ↔
      Block.bars a.previousHash = Block.bars b.previousHash ∧
        Block.bars a.payloadHash = Block.bars b.payloadHash :=
  Block.fields_eq_iff (Authentic.toStringForHash_eq hS ha hb ⟨a, by simp, rfl⟩ ⟨b, by simp, rfl⟩
    hhash)

/-- A block whose payload hash holds a separator, and the same string cut at the other one. -/
def FirstBlock.barred : Block where
  hash := "12218f65777992e68a2e0ebbb52f362ea5e0524db035ba4e3034f4e9a53879f8"
  previousHash := "0"
  payloadHash := "0|0"
  authorPublicKey := "0700000000000000000000000000000000000000000000000000000000000000"
  signature := "377c307c307c7c30000000000000000000000000000000000000000000000000"
  timestamp := 7

def FirstBlock.shifted : Block :=
  { FirstBlock.barred with previousHash := "0|0", payloadHash := "0" }

/-- Two blocks of the one hash have other fields, since the separators are shifted. -/
theorem hash_fixes_fields_shifted :
    ¬ (FirstBlock.barred.previousHash = FirstBlock.shifted.previousHash ∧
      FirstBlock.barred.payloadHash = FirstBlock.shifted.payloadHash ∧
      FirstBlock.barred.authorPublicKey = FirstBlock.shifted.authorPublicKey ∧
      FirstBlock.barred.timestamp = FirstBlock.shifted.timestamp) := by
  have hsame : FirstBlock.barred.canonicalBytes = FirstBlock.shifted.canonicalBytes := by
    decide +kernel
  have hS : testEnv.CollisionFree (Block.canonicals [FirstBlock.barred, FirstBlock.shifted]) := by
    refine (Block.collisionFree_singleton testEnv FirstBlock.barred).mono ?_
    rintro x ⟨b, hb, rfl⟩
    rcases List.mem_pair.1 hb with rfl | rfl
    · exact ⟨FirstBlock.barred, by simp, rfl⟩
    · exact ⟨FirstBlock.barred, by simp, hsame⟩
  refine (hash_fixes_fields_iff hS (by decide +kernel) (by decide +kernel) rfl).not.2 ?_
  decide

/-- One signature and one hash serve for both. -/
theorem shifted_fields_accepted :
    validateSingleBlock testEnv FirstBlock.barred = .ok none ∧
      validateSingleBlock testEnv FirstBlock.shifted = .ok none ∧
      FirstBlock.barred.hash = FirstBlock.shifted.hash ∧
      FirstBlock.barred.previousHash ≠ FirstBlock.shifted.previousHash := by
  decide +kernel

/-! ## The text of a message -/

/-- What a `char` pointer does not reach. -/
def afterNul (text : Bytes) : Bytes := text.dropWhile (· ≠ 0)

theorem cBytes_append_afterNul (text : Bytes) : cBytes text ++ afterNul text = text :=
  List.takeWhile_append_dropWhile

/-- What agrees with one block has one author, one time and one text up to the first NUL. -/
theorem same_of_compared {b : Block} {m₁ m₂ : TextMessage}
    (hS : E.CollisionFree {cBytes m₁.message, cBytes m₂.message})
    (h₁ : compareBlockWithMessage E b m₁ = .ok none)
    (h₂ : compareBlockWithMessage E b m₂ = .ok none) :
    m₁.fromPeer.publicKey = m₂.fromPeer.publicKey ∧ m₁.timestamp = m₂.timestamp ∧
      cBytes m₁.message = cBytes m₂.message := by
  rcases compareBlockWithMessage_eq_none.1 h₁ with ⟨hauthor₁, htime₁, htext₁, _⟩
  rcases compareBlockWithMessage_eq_none.1 h₂ with ⟨hauthor₂, htime₂, htext₂, _⟩
  exact ⟨hauthor₁.symm.trans hauthor₂, htime₁.symm.trans htime₂,
    hS (by simp) (by simp) (htext₁.trans htext₂.symm)⟩

/-- The messages that agree with one block have one author, one time and one text, if and only if
their texts go on in the same way after a NUL.  A block agrees with the message it was made from. -/
theorem block_fixes_text_iff (laws : E.crypto.SignatureLaws) :
    (∀ b m₁ m₂, E.CollisionFree {cBytes m₁.message, cBytes m₂.message} →
      compareBlockWithMessage E b m₁ = .ok none → compareBlockWithMessage E b m₂ = .ok none →
      ((m₁.fromPeer.publicKey = m₂.fromPeer.publicKey ∧ m₁.timestamp = m₂.timestamp ∧
        m₁.message = m₂.message) ↔ afterNul m₁.message = afterNul m₂.message)) ∧
    ∀ cfg : Config, cfg.KeyPairMatches E → ∀ rnd m t, m.fromPeer.publicKey = cfg.publicKey →
      ∃ b, (createBlockFromMessage E cfg.privateKey rnd m).run ChainOp.exec t = (.ok b, t) ∧
        compareBlockWithMessage E b m = .ok none := by
  constructor
  · intro b m₁ m₂ hS h₁ h₂
    rcases same_of_compared hS h₁ h₂ with ⟨hauthor, htime, hstart⟩
    constructor
    · rintro ⟨_, _, htext⟩
      rw [htext]
    · intro hrest
      refine ⟨hauthor, htime, ?_⟩
      -- the hash covers a message up to its first NUL byte
      calc m₁.message = cBytes m₁.message ++ afterNul m₁.message :=
            (cBytes_append_afterNul _).symm
        _ = cBytes m₂.message ++ afterNul m₂.message := by rw [hstart, hrest]
        _ = m₂.message := cBytes_append_afterNul _
  · intro cfg hkeys rnd m t hauthor
    rcases signBlock_ok laws hkeys rnd hauthor ((ChainDB.findTip t).getD Block.default) with
      ⟨b, hsign, hof⟩
    refine ⟨b, ?_, compareBlockWithMessage_blockOf hof rfl rfl rfl⟩
    rw [createBlockFromMessage, ChainProg.run_findTip, hsign]
    rfl

/-- The first message under another id. -/
def FirstBlock.copy : TextMessage := { FirstBlock.message with id := "m9" }

theorem block_fixes_text_copy :
    FirstBlock.message.message = FirstBlock.copy.message ∧
      ∃ b, (createBlockFromMessage testEnv FirstBlock.config.privateKey 0 FirstBlock.message).run
          ChainOp.exec FirstBlock.table = (.ok b, FirstBlock.table) ∧
        compareBlockWithMessage testEnv b FirstBlock.message = .ok none := by
  have hboth := block_fixes_text_iff (E := testEnv) XORCrypto.signatureLaws
  have hS : testEnv.CollisionFree
      {cBytes FirstBlock.message.message, cBytes FirstBlock.copy.message} := by
    have hone : cBytes FirstBlock.copy.message = cBytes FirstBlock.message.message := rfl
    rw [hone, Set.pair_eq_singleton]
    exact Set.injOn_singleton _ _
  have hfirst : compareBlockWithMessage testEnv FirstBlock.block FirstBlock.message = .ok none :=
    compareBlockWithMessage_blockOf FirstBlock.blockOf_block rfl rfl rfl
  have hcopy : compareBlockWithMessage testEnv FirstBlock.block FirstBlock.copy = .ok none :=
    compareBlockWithMessage_blockOf FirstBlock.blockOf_block rfl rfl rfl
  exact ⟨((hboth.1 _ _ _ hS hfirst hcopy).2 rfl).2.2,
    hboth.2 _ FirstBlock.keyPairMatches 0 _ FirstBlock.table rfl⟩

/-- The first text with something after a NUL. -/
def FirstBlock.longer : TextMessage := { FirstBlock.message with message := [104, 105, 0, 33] }

/-- The block of the first message takes it for the same. -/
theorem longer_text_accepted :
    compareBlockWithMessage testEnv FirstBlock.block FirstBlock.message = .ok none ∧
      compareBlockWithMessage testEnv FirstBlock.block FirstBlock.longer = .ok none ∧
      FirstBlock.message.message ≠ FirstBlock.longer.message := by
  have hfirst : compareBlockWithMessage testEnv FirstBlock.block FirstBlock.message = .ok none :=
    compareBlockWithMessage_blockOf FirstBlock.blockOf_block rfl rfl rfl
  rcases compareBlockWithMessage_eq_none.1 hfirst with ⟨hauthor, htime, htext, hsigned⟩
  exact ⟨hfirst, compareBlockWithMessage_eq_none.2 ⟨hauthor, htime, htext, hsigned⟩, by decide⟩

end BlockchainService
end Blockchain
end DChat
