import DChat.BlockchainService
import DChat.Config
import DChat.Library.LinkedChain

/-!
# ChainValidity — what the validators decide

`validateLocalChain` answers `true` exactly on the chains of authentic blocks that are linked
from the marker `"0"` (`ValidBlocks`).  The other validators are read off in the same terms, so
that later proofs never look inside them.
-/

namespace DChat
namespace Blockchain
namespace BlockchainService

open Utils Crypto LinkedChain Fallible

variable {E : Env}

/-! ## Single blocks -/

theorem verifyBlockSignature_eq {b : Block} {sig pub : Bytes}
    (hsig : E.crypto.stringToKey b.signature = .ok sig)
    (hpub : E.crypto.stringToKey b.authorPublicKey = .ok pub) :
    verifyBlockSignature E b = .ok (E.crypto.verify b.canonicalBytes sig pub) := by
  simp [verifyBlockSignature, hsig, hpub, bind, Except.bind, pure, Except.pure]

/-- A signature is accepted when both keys decode and it verifies. -/
theorem verifyBlockSignature_eq_true {b : Block} :
    verifyBlockSignature E b = .ok true ↔ ∃ sig pub, E.crypto.stringToKey b.signature = .ok sig ∧
      E.crypto.stringToKey b.authorPublicKey = .ok pub ∧
      E.crypto.verify b.canonicalBytes sig pub = true := by
  constructor
  · intro h
    rcases bind_eq_ok.1 h with ⟨sig, hsig, h⟩
    rcases bind_pure_eq_ok.1 h with ⟨pub, hpub, hverify⟩
    exact ⟨sig, pub, hsig, hpub, hverify⟩
  · rintro ⟨sig, pub, hsig, hpub, hverify⟩
    rw [verifyBlockSignature_eq hsig hpub, hverify]

theorem authentic_iff {b : Block} :
    Authentic E b ↔
      verifyBlockSignature E b = .ok true ∧ E.sha256 b.canonicalBytes = b.hash := by
  have hcanon : Block.computeHash E { b with hash := "" } =
      { b with hash := E.sha256 b.canonicalBytes } := rfl
  cases hsig : verifyBlockSignature E b with
  | error e => simp [Authentic, validateSingleBlock, hsig, bind, Except.bind]
  | ok ok =>
      cases ok with
      | false => simp [Authentic, validateSingleBlock, hsig, bind, Except.bind, pure, Except.pure]
      | true =>
          by_cases hhash : E.sha256 b.canonicalBytes = b.hash <;>
            simp [Authentic, validateSingleBlock, hsig, hcanon, hhash, bind, Except.bind, pure,
              Except.pure]

namespace Authentic

variable {b : Block}

theorem hash_eq (h : Authentic E b) : E.sha256 b.canonicalBytes = b.hash := (authentic_iff.1 h).2

theorem noNul_hash (h : Authentic E b) : NoNul b.hash := h.hash_eq ▸ E.noNul_sha256 _

theorem hash_ne_zero (h : Authentic E b) : b.hash ≠ "0" := h.hash_eq ▸ E.sha256_ne_zero _

/-- The separator is no hexadecimal digit. -/
theorem bar_not_mem_hash (h : Authentic E b) : '|' ∉ b.hash.toList := by
  rw [← h.hash_eq]
  intro hmem
  exact absurd (mem_toHex hmem) (by decide)

/-- Without collisions, authentic blocks with one hash have one canonical string. -/
theorem toStringForHash_eq {S : Set Bytes} (hS : E.CollisionFree S) {a : Block}
    (ha : Authentic E a) (hb : Authentic E b) (haS : a.canonicalBytes ∈ S)
    (hbS : b.canonicalBytes ∈ S) (hhash : a.hash = b.hash) :
    a.toStringForHash = b.toStringForHash := by
  have hdigest : E.sha256 a.canonicalBytes = E.sha256 b.canonicalBytes := by
    rw [ha.hash_eq, hb.hash_eq, hhash]
  exact bytesOf_injective (hS haS hbS hdigest)

end Authentic

/-! ## Chains -/

/-- A chain of authentic blocks, linked from the marker. -/
structure ValidBlocks (E : Env) (blocks : List Block) : Prop where
  linked : LinkedFrom Block.hash Block.previousHash "0" blocks
  authentic : ∀ b ∈ blocks, Authentic E b

theorem validateChainFrom_eq_true {p : String} {isValid : Bool} {blocks : List Block} :
    validateChainFrom E p isValid blocks = .ok true ↔
      isValid = true ∧ LinkedFrom Block.hash Block.previousHash p blocks ∧
        ∀ b ∈ blocks, Authentic E b := by
  induction blocks generalizing p isValid with
  | nil => simp [validateChainFrom, pure, Except.pure]
  | cons b bs ih =>
      by_cases hlink : b.previousHash = p
      · cases hsingle : validateSingleBlock E b with
        | error e => simp [validateChainFrom, Authentic, hlink, hsingle, bind, Except.bind]
        | ok error =>
            cases error with
            | some e =>
                simp [validateChainFrom, Authentic, hlink, hsingle, bind, Except.bind, ih]
            | none =>
                simp [validateChainFrom, Authentic, hlink, hsingle, bind, Except.bind, ih]
      · simp [validateChainFrom, hlink, ih]

theorem validateLocalChain_eq_true {t : BlockTable} :
    validateLocalChain E t = .ok true ↔ ValidBlocks E (ChainDB.loadAllBlocks t) := by
  cases hblocks : ChainDB.loadAllBlocks t with
  | nil =>
      have hempty : ValidBlocks E [] := ⟨trivial, by simp⟩
      simp [validateLocalChain, hblocks, hempty, pure, Except.pure]
  | cons b bs =>
      have hloop : validateLocalChain E t = validateChainFrom E "0" true (b :: bs) := by
        simp [validateLocalChain, hblocks]
      rw [hloop, validateChainFrom_eq_true]
      exact ⟨fun h => ⟨h.2.1, h.2.2⟩, fun h => ⟨rfl, h.linked, h.authentic⟩⟩

/-- The hash that the next block has to name. -/
def tipHash (t : BlockTable) : String := tip Block.hash "0" (ChainDB.loadAllBlocks t)

/-- `findTip` leaves a block with this hash, whether it found one or not. -/
theorem findTip_hash (t : BlockTable) :
    ((ChainDB.findTip t).getD Block.default).hash = tipHash t := by
  cases hlast : (ChainDB.loadAllBlocks t).getLast? <;>
    simp [ChainDB.findTip_eq, tipHash, tip, hlast, Block.default]

namespace ValidBlocks

variable {blocks : List Block}

theorem nil : ValidBlocks E [] := ⟨trivial, by simp⟩

/-- Extending a valid chain at its tip. -/
theorem concat {b : Block} (h : ValidBlocks E blocks) (hb : Authentic E b)
    (hlink : b.previousHash = tip Block.hash "0" blocks) : ValidBlocks E (blocks ++ [b]) := by
  refine ⟨linkedFrom_concat.2 ⟨h.linked, hlink⟩, ?_⟩
  intro c hc
  rcases List.mem_append.1 hc with hold | hnew
  · exact h.authentic c hold
  · rw [List.mem_singleton.1 hnew]
    exact hb

theorem of_prefix {blocks' : List Block} (h : ValidBlocks E blocks') (hp : blocks <+: blocks') :
    ValidBlocks E blocks :=
  ⟨h.linked.of_prefix hp, fun b hb => h.authentic b (hp.subset hb)⟩

theorem hash_ne_zero (h : ValidBlocks E blocks) : ∀ b ∈ blocks, b.hash ≠ "0" :=
  fun b hb => (h.authentic b hb).hash_ne_zero

/-- Parents in a valid chain are hexadecimal or the marker. -/
theorem bar_not_mem_previousHash (h : ValidBlocks E blocks) :
    ∀ b ∈ blocks, '|' ∉ b.previousHash.toList := by
  intro b hb
  rcases h.linked.grounded.parent_eq_or_mem hb with hroot | ⟨c, hc, hpar⟩
  · rw [hroot]
    decide
  · rw [← hpar]
    exact (h.authentic c hc).bar_not_mem_hash

theorem noNul_tip (h : ValidBlocks E blocks) : NoNul (tip Block.hash "0" blocks) := by
  by_cases hne : blocks = []
  · rw [hne]
    exact (by decide : NoNul "0")
  · obtain ⟨b, hb, htip⟩ := tip_mem Block.hash "0" hne
    rw [← htip]
    exact (h.authentic b hb).noNul_hash

/-- Whatever the insertion answers: a storable authentic block whose parent is stored leaves a
valid chain valid.  It finds no sibling only when its parent is the tip. -/
theorem insertBlock {t : BlockTable} {b : Block} (h : ValidBlocks E (ChainDB.loadAllBlocks t))
    (hb : Authentic E b) (hstorable : b.Storable)
    (hparent : ∃ c ∈ ChainDB.loadAllBlocks t, c.hash = b.previousHash) :
    ValidBlocks E (ChainDB.loadAllBlocks (ChainDB.insertBlock t b).1) := by
  cases hstored : (ChainDB.insertBlock t b).2 with
  | false =>
      rw [ChainDB.insertBlock_of_false hstored]
      exact h
  | true =>
      have hne : b.previousHash ≠ "0" := by
        obtain ⟨c, hc, hpar⟩ := hparent
        rw [← hpar]
        exact h.hash_ne_zero c hc
      have hchild : ∀ c ∈ ChainDB.loadAllBlocks t, c.previousHash ≠ b.previousHash := by
        rcases (ChainDB.insertBlock_eq_true.1 hstored).1 with hroot | hchild
        · exact absurd hroot hne
        · simpa [cString_of_noNul hstorable.previousHash] using hchild
      rw [ChainDB.loadAllBlocks_insertBlock hstored, BlockRow.toBlock_ofBlock hstorable]
      exact h.concat hb (eq_tip_of_childless h.linked hparent hchild)

end ValidBlocks

/-! ## Blocks a node signs -/

/-- The block of a message over a tip: what its author's node knows of it. -/
structure BlockOf (E : Env) (message : Messaging.TextMessage) (tip b : Block) : Prop where
  authentic : Authentic E b
  previousHash : b.previousHash = tip.hash
  payloadHash : b.payloadHash = E.sha256 (cBytes message.message)
  authorPublicKey : b.authorPublicKey = message.fromPeer.publicKey
  timestamp : b.timestamp = message.timestamp
  noNul_author : NoNul b.authorPublicKey
  noNul_signature : NoNul b.signature

/-- What holds of a created block whatever the keys are. -/
theorem signBlock_fields {privateKey : String} {rnd : Rand} {unsigned b : Block}
    (h : signBlock E privateKey rnd unsigned = .ok b) :
    b.previousHash = unsigned.previousHash ∧ b.hash = E.sha256 b.canonicalBytes := by
  cases hpriv : E.crypto.stringToKey privateKey with
  | error e => simp [signBlock, hpriv, bind, Except.bind] at h
  | ok priv =>
      cases hsign : E.crypto.sign rnd unsigned.canonicalBytes priv with
      | error e => simp [signBlock, hpriv, hsign, bind, Except.bind] at h
      | ok sign =>
          simp only [signBlock, hpriv, hsign, bind, Except.bind, pure, Except.pure,
            Except.ok.injEq] at h
          subst h
          exact ⟨rfl, rfl⟩

/-- Creating a block with a matching key pair succeeds. -/
theorem signBlock_ok (laws : E.crypto.SignatureLaws) {cfg : Config} (hkeys : cfg.KeyPairMatches E)
    (rnd : Rand) {message : Messaging.TextMessage}
    (hauthor : message.fromPeer.publicKey = cfg.publicKey) (tip : Block) :
    ∃ b, signBlock E cfg.privateKey rnd (unsignedBlock E message tip) = .ok b ∧
      BlockOf E message tip b := by
  obtain ⟨kp, hgen, hpub, hpriv⟩ := hkeys
  obtain ⟨sign, hsign⟩ :=
    laws.sign_ok hgen rnd (unsignedBlock E message tip).canonicalBytes
  have hverify : E.crypto.verify (unsignedBlock E message tip).canonicalBytes sign kp.publicKey =
      true := laws.verify_sign hgen hsign
  have hkey : message.fromPeer.publicKey = E.crypto.keyToString kp.publicKey := hauthor.trans hpub
  refine ⟨Block.computeHash E { unsignedBlock E message tip with
    signature := E.crypto.keyToString sign }, ?_, ?_⟩
  · simp [signBlock, hpriv, laws.stringToKey_keyToString, hsign, bind, Except.bind, pure,
      Except.pure]
  · refine ⟨authentic_iff.2 ⟨?_, rfl⟩, rfl, rfl, rfl, rfl, ?_, laws.noNul_keyToString _⟩
    · -- neither the signature nor the hash enters the canonical string
      have hpublic : E.crypto.stringToKey (unsignedBlock E message tip).authorPublicKey =
          .ok kp.publicKey := by
        rw [unsignedBlock, hkey, laws.stringToKey_keyToString]
      have hverified : verifyBlockSignature E (Block.computeHash E
          { unsignedBlock E message tip with signature := E.crypto.keyToString sign }) =
            .ok (E.crypto.verify (unsignedBlock E message tip).canonicalBytes sign
              kp.publicKey) :=
        verifyBlockSignature_eq (laws.stringToKey_keyToString sign) hpublic
      rw [hverified, hverify]
    · rw [Block.computeHash, unsignedBlock, hkey]
      exact laws.noNul_keyToString _

theorem blockOf_of_signBlock (laws : E.crypto.SignatureLaws) {cfg : Config}
    (hkeys : cfg.KeyPairMatches E) {rnd : Rand} {message : Messaging.TextMessage}
    (hauthor : message.fromPeer.publicKey = cfg.publicKey) {tip b : Block}
    (h : signBlock E cfg.privateKey rnd (unsignedBlock E message tip) = .ok b) :
    BlockOf E message tip b := by
  rcases signBlock_ok laws hkeys rnd hauthor tip with ⟨c, hsign, hof⟩
  have hbc : c = b := Except.ok.inj (hsign.symm.trans h)
  exact hbc ▸ hof

/-- Such a block survives storage when its parent does. -/
theorem BlockOf.storable {message : Messaging.TextMessage} {tip b : Block}
    (h : BlockOf E message tip b) (htip : NoNul tip.hash)
    (htime : message.timestamp.toNat < 2 ^ 63) : b.Storable where
  hash := h.authentic.noNul_hash
  previousHash := h.previousHash ▸ htip
  payloadHash := h.payloadHash ▸ E.noNul_sha256 _
  authorPublicKey := h.noNul_author
  signature := h.noNul_signature
  timestamp := h.timestamp ▸ htime

/-! ## Blocks and their messages -/

/-- The block was made by the sender, at the time and from the text of the message. -/
theorem compareBlockWithMessage_eq_none {block : Block} {message : Messaging.TextMessage} :
    compareBlockWithMessage E block message = .ok none ↔
      block.authorPublicKey = message.fromPeer.publicKey ∧ block.timestamp = message.timestamp ∧
        E.sha256 (cBytes message.message) = block.payloadHash ∧
        verifyBlockSignature E block = .ok true := by
  rw [compareBlockWithMessage]
  by_cases hauthor : block.authorPublicKey = message.fromPeer.publicKey
  · by_cases htime : block.timestamp = message.timestamp
    · by_cases htext : E.sha256 (cBytes message.message) = block.payloadHash
      · rcases hverify : verifyBlockSignature E block with e | verified
        · simp [hauthor, htime, htext, bind, Except.bind]
        · cases verified <;> simp [hauthor, htime, htext, bind, Except.bind, pure, Except.pure]
      · simp [hauthor, htime, htext, pure, Except.pure]
    · simp [hauthor, htime, pure, Except.pure]
  · simp [hauthor, pure, Except.pure]

/-- A message agrees with the block that was made from it. -/
theorem compareBlockWithMessage_blockOf {message m : Messaging.TextMessage} {tip block : Block}
    (h : BlockOf E message tip block) (hauthor : m.fromPeer = message.fromPeer)
    (htime : m.timestamp = message.timestamp) (htext : m.message = message.message) :
    compareBlockWithMessage E block m = .ok none := by
  rw [compareBlockWithMessage_eq_none, h.authorPublicKey, h.timestamp, h.payloadHash, hauthor,
    htime, htext]
  exact ⟨rfl, rfl, rfl, (authentic_iff.1 h.authentic).1⟩

/-! ## A chain of one block

An author of the test set-up, the block of a first message, and two blocks over it, by its author
and by somebody else, for the places where a concrete chain is wanted. -/

namespace FirstBlock

open Peer Messaging KeyedTable AtomicProg

def keyPair : KeyPair := testEnv.crypto.generateKeyPair 7

def rivalKeyPair : KeyPair := testEnv.crypto.generateKeyPair 9

def config : Config where
  host := "127.0.0.1"
  port := 8001
  publicKey := testEnv.crypto.keyToString keyPair.publicKey
  privateKey := testEnv.crypto.keyToString keyPair.privateKey

def rivalConfig : Config where
  host := "127.0.0.1"
  port := 8002
  publicKey := testEnv.crypto.keyToString rivalKeyPair.publicKey
  privateKey := testEnv.crypto.keyToString rivalKeyPair.privateKey

theorem keyPairMatches : config.KeyPairMatches testEnv := ⟨keyPair, ⟨7, rfl⟩, rfl, rfl⟩

theorem rival_keyPairMatches : rivalConfig.KeyPairMatches testEnv :=
  ⟨rivalKeyPair, ⟨9, rfl⟩, rfl, rfl⟩

/-- The reading of everybody's clock. -/
def now : ClockReading := ⟨1700000000000, by decide⟩

def tick (uuid : String) : Tick := { uuid, now }

def message : TextMessage := TextMessage.create (tick "m1") config.me rivalConfig.me [104, 105]

/-- The block that `createBlockFromMessage` makes from the message on an empty chain. -/
def block : Block where
  hash := "9528acc67248a755bdb20a8d90ac1e2abb496a5eaf7872a0784cf551c612296f"
  previousHash := "0"
  payloadHash := "8f434346648f6b96df89dda901c5176b10a6d83961dd3c1ac88b59b2dc327aa4"
  authorPublicKey := "0700000000000000000000000000000000000000000000000000000000000000"
  signature := "602a752a6332603b373f30356c3235313857075e005b515d030b545250070656"
  timestamp := 1700000000000

def child : Block where
  hash := "53ff0e2e24e9199b78894e22ebafd32d8aa9feb41626c4c128530f9c02c93032"
  previousHash := "9528acc67248a755bdb20a8d90ac1e2abb496a5eaf7872a0784cf551c612296f"
  payloadHash := "ca978112ca1bbdcafac231b39a23dc4da786eff8147c4e72b9807785afee48bb"
  authorPublicKey := "0700000000000000000000000000000000000000000000000000000000000000"
  signature := "26292c36616f31346c3666366763656106580e0a54500b0f5c5e5706550c5f51"
  timestamp := 1700000000000

def rival : Block where
  hash := "83a1d9630e9918d29ff5a62ca1e414654043a543baf6470a60acef821687706e"
  previousHash := "9528acc67248a755bdb20a8d90ac1e2abb496a5eaf7872a0784cf551c612296f"
  payloadHash := "3e23e8160039594a33894f6564e1b1348bbd7a0088d42c4acb73eeaed59c009d"
  authorPublicKey := "0900000000000000000000000000000000000000000000000000000000000000"
  signature := "7e207d6937603f62606c3b676b323e35550c075e5c050e020a54510d510e050d"
  timestamp := 1700000000000

theorem signBlock_block : signBlock testEnv config.privateKey 0
    (unsignedBlock testEnv message Block.default) = .ok block := by
  decide +kernel

theorem signBlock_child : signBlock testEnv config.privateKey 0 (unsignedBlock testEnv
    (TextMessage.create (tick "m2") config.me rivalConfig.me [97]) block) = .ok child := by
  decide +kernel

theorem signBlock_rival : signBlock testEnv rivalConfig.privateKey 0 (unsignedBlock testEnv
    (TextMessage.create (tick "m3") rivalConfig.me config.me [98]) block) = .ok rival := by
  decide +kernel

theorem blockOf_block : BlockOf testEnv message Block.default block :=
  blockOf_of_signBlock XORCrypto.signatureLaws keyPairMatches rfl signBlock_block

theorem blockOf_child : BlockOf testEnv
    (TextMessage.create (tick "m2") config.me rivalConfig.me [97]) block child :=
  blockOf_of_signBlock XORCrypto.signatureLaws keyPairMatches rfl signBlock_child

theorem blockOf_rival : BlockOf testEnv
    (TextMessage.create (tick "m3") rivalConfig.me config.me [98]) block rival :=
  blockOf_of_signBlock XORCrypto.signatureLaws rival_keyPairMatches rfl signBlock_rival

theorem storable_block : block.Storable :=
  blockOf_block.storable (by decide : NoNul "0") (by decide)

theorem storable_child : child.Storable :=
  blockOf_child.storable blockOf_block.authentic.noNul_hash (by decide)

theorem storable_rival : rival.Storable :=
  blockOf_rival.storable blockOf_block.authentic.noNul_hash (by decide)

/-- A first block can be inserted into any store without blocks. -/
theorem loadAllBlocks_insert {t : BlockTable} (ht : ChainDB.loadAllBlocks t = []) :
    ChainDB.loadAllBlocks (ChainDB.insertBlock t block).1 = [block] := by
  have hstored : (ChainDB.insertBlock t block).2 = true :=
    ChainDB.insertBlock_eq_true.2 ⟨Or.inl rfl, by simp [ht]⟩
  rw [ChainDB.loadAllBlocks_insertBlock hstored, BlockRow.toBlock_ofBlock storable_block, ht,
    List.nil_append]

/-- The chain that holds the block. -/
def table : BlockTable := (ChainDB.insertBlock Table.empty block).1

theorem loadAllBlocks_table : ChainDB.loadAllBlocks table = [block] := loadAllBlocks_insert rfl

theorem findTip_table : ChainDB.findTip table = some block := by
  rw [ChainDB.findTip_eq, loadAllBlocks_table]
  rfl

theorem tipHash_table : tipHash table = block.hash := by
  rw [← findTip_hash, findTip_table]
  rfl

theorem valid_table : validateLocalChain testEnv table = .ok true := by
  rw [validateLocalChain_eq_true, loadAllBlocks_table]
  exact ValidBlocks.nil.concat blockOf_block.authentic rfl

/-- The second block of the same author can be inserted over the first one. -/
theorem loadAllBlocks_insert_child {t : BlockTable} (ht : ChainDB.loadAllBlocks t = [block]) :
    ChainDB.loadAllBlocks (ChainDB.insertBlock t child).1 = [block, child] := by
  have hstored : (ChainDB.insertBlock t child).2 = true := by
    rw [ChainDB.insertBlock_eq_true, ht]
    decide +kernel
  rw [ChainDB.loadAllBlocks_insertBlock hstored, BlockRow.toBlock_ofBlock storable_child, ht]
  rfl

/-- The chain that holds both. -/
def longTable : BlockTable := (ChainDB.insertBlock table child).1

theorem loadAllBlocks_longTable : ChainDB.loadAllBlocks longTable = [block, child] :=
  loadAllBlocks_insert_child loadAllBlocks_table

theorem valid_of_load {t : BlockTable} (ht : ChainDB.loadAllBlocks t = [block, child]) :
    validateLocalChain testEnv t = .ok true := by
  rw [validateLocalChain_eq_true, ht]
  exact (ValidBlocks.nil.concat blockOf_block.authentic rfl).concat blockOf_child.authentic rfl

theorem hasBlock_rival : ChainDB.hasBlock table rival.hash = false := by
  decide +kernel

end FirstBlock

end BlockchainService
end Blockchain
end DChat
