import DChat.Sending

/-!
# HonestSend — a send between nodes that follow the rules

With generated key pairs the message is encrypted, decoded at both ends and signed in a way that
verifies.  When every peer has the sender's chain and the clocks are close, every peer takes the
block, so `storeAndBroadcastBlock` succeeds and every chain grows by it.
-/

namespace DChat

open Utils Crypto

/-! ## Lengths -/

namespace Json

theorem stringLen_of_plain {s : String} (h : ∀ c ∈ s.toList, escapedLen c = 1) :
    stringLen s = s.toList.length + 2 := by
  have hsum : ∀ l : List Char, (∀ c ∈ l, escapedLen c = 1) →
      (l.map escapedLen).sum = l.length := by
    intro l hl
    induction l with
    | nil => rfl
    | cons c cs ih =>
        have hcs := ih fun d hd => hl d (List.mem_cons_of_mem _ hd)
        rw [List.map_cons, List.sum_cons, hl c List.mem_cons_self, hcs, List.length_cons]
        omega
  rw [stringLen, hsum _ h]

theorem stringLen_toHex (data : Bytes) : stringLen (toHex data) = 2 * data.length + 2 := by
  have hplain : ("0123456789abcdef".toList.all fun c => decide (escapedLen c = 1)) = true := by
    decide
  have hdigit : ∀ c ∈ (toHex data).toList, escapedLen c = 1 := fun c hc =>
    of_decide_eq_true (List.all_eq_true.1 hplain c (mem_toHex hc))
  rw [stringLen_of_plain hdigit, length_toHex]

theorem length_digits_le (n : UInt64) : (Nat.toDigits 10 n.toNat).length ≤ 20 := by
  have hn := n.toNat_lt
  exact (Nat.length_toDigits_le_iff (by decide) (by decide)).2 (by omega)

end Json

theorem Crypto.Env.stringLen_sha256 (E : Env) (data : Bytes) :
    Json.stringLen (E.sha256 data) = 66 := by
  rw [Env.sha256, Json.stringLen_toHex, (E.SHA256 data).length_eq]

/-- Public keys and signatures are short as JSON strings, far below the size of a buffer. -/
structure Crypto.ICrypto.CompactLaws (c : ICrypto) : Prop where
  publicKey : ∀ {kp}, c.Generated kp → Json.stringLen (c.keyToString kp.publicKey) ≤ 8192
  signature : ∀ {kp}, c.Generated kp → ∀ {rnd m s}, c.sign rnd m kp.privateKey = .ok s →
    Json.stringLen (c.keyToString s) ≤ 8192

theorem Crypto.XORCrypto.compactLaws : Crypto.XORCrypto.CompactLaws where
  publicKey := by
    rintro kp ⟨rnd, rfl⟩
    have hlen : (Crypto.XORCrypto.generateKeyPair rnd).publicKey.length = 32 := by
      simp [XORCrypto.generateKeyPair, XORCrypto.generateSecret]
    calc Json.stringLen (toHex (Crypto.XORCrypto.generateKeyPair rnd).publicKey)
        = 2 * 32 + 2 := by rw [Json.stringLen_toHex, hlen]
      _ ≤ 8192 := by decide
  signature := by
    rintro kp _ rnd m s hs
    have hsig : XORCrypto.sign m kp.privateKey = s := by simpa [Crypto.XORCrypto] using hs
    have hlen : s.length = 32 := by
      rw [← hsig]
      exact XORCrypto.length_fold32 _
    calc Json.stringLen (toHex s) = 2 * 32 + 2 := by rw [Json.stringLen_toHex, hlen]
      _ ≤ 8192 := by decide

namespace Blockchain
namespace Block

theorem dumpLen_toJson (b : Block) :
    b.toJson.dumpLen = Json.stringLen b.previousHash + Json.stringLen b.payloadHash +
      Json.stringLen b.authorPublicKey + Json.stringLen b.signature +
      (Nat.toDigits 10 b.timestamp.toNat).length + Json.stringLen b.hash + 82 := by
  have hkeys : Json.stringLen "previousHash" = 14 ∧ Json.stringLen "payloadHash" = 13 ∧
      Json.stringLen "authorPubKey" = 14 ∧ Json.stringLen "signature" = 11 ∧
      Json.stringLen "timestamp" = 11 ∧ Json.stringLen "hash" = 6 := by decide
  rcases hkeys with ⟨h₁, h₂, h₃, h₄, h₅, h₆⟩
  simp only [toJson, Json.dumpLen, Json.membersLen, h₁, h₂, h₃, h₄, h₅, h₆, List.length_cons,
    List.length_nil]
  omega

end Block
end Blockchain

theorem Peer.UserPeer.dumpLen_toJson (p : Peer.UserPeer) :
    p.toJson.dumpLen = (Nat.toDigits 10 p.port.toNat).length + Json.stringLen p.host +
      Json.stringLen p.publicKey + 31 := by
  have hkeys : Json.stringLen "port" = 6 ∧ Json.stringLen "host" = 6 ∧
      Json.stringLen "public_key" = 12 := by decide
  rcases hkeys with ⟨h₁, h₂, h₃⟩
  simp only [Peer.UserPeer.toJson, Json.dumpLen, Json.membersLen, h₁, h₂, h₃, List.length_cons,
    List.length_nil, UInt16.toNat_toUInt64]
  omega

namespace Messaging
namespace TextMessage

theorem dumpLen_envelope {m : SecretMessage} (htype : m.type = .textMessage)
    (cipher signature : String) :
    (envelope m cipher signature).dumpLen = Json.stringLen m.id + m.fromPeer.toJson.dumpLen +
      m.toPeer.toJson.dumpLen + (Nat.toDigits 10 m.timestamp.toNat).length +
      Json.stringLen m.blockHash + Json.stringLen cipher + Json.stringLen signature + 105 := by
  have hkeys : Json.stringLen "id" = 4 ∧ Json.stringLen "type" = 6 ∧ Json.stringLen "from" = 6 ∧
      Json.stringLen "to" = 4 ∧ Json.stringLen "timestamp" = 11 ∧
      Json.stringLen "blockHash" = 11 ∧ Json.stringLen "payload" = 9 ∧
      Json.stringLen "message" = 9 ∧ Json.stringLen "signature" = 11 ∧
      Json.stringLen MessageType.textMessage.toString = 14 := by decide
  rcases hkeys with ⟨h₁, h₂, h₃, h₄, h₅, h₆, h₇, h₈, h₉, h₁₀⟩
  have hobject : envelope m cipher signature = .object [("id", .string m.id),
      ("type", .string MessageType.textMessage.toString), ("from", m.fromPeer.toJson),
      ("to", m.toPeer.toJson), ("timestamp", .unsigned m.timestamp),
      ("blockHash", .string m.blockHash), ("payload", .object [("message", .string cipher)]),
      ("signature", .string signature)] := htype ▸ rfl
  simp only [hobject, Json.dumpLen, Json.membersLen, h₁, h₂, h₃, h₄, h₅, h₆, h₇, h₈, h₉, h₁₀,
    List.length_cons, List.length_nil]
  omega

/-! ## Encryption between two parties -/

variable {E : Env}

/-- What the sender serializes. -/
theorem serialize_ok (laws : E.crypto.SignatureLaws) (session : E.crypto.SessionLaws)
    {sender recipient : Config} (hsender : sender.KeyPairMatches E)
    (hrecipient : recipient.KeyPairMatches E) {m : TextMessage}
    (hto : m.toPeer.publicKey = recipient.publicKey) (draws : Draws) :
    ∃ j, serialize E m sender.privateKey draws = .ok j := by
  rcases hsender with ⟨kp, hgen, _, hpriv⟩
  rcases hrecipient with ⟨kp', hgen', hpub', _⟩
  rcases session.session_ok hgen hgen' with ⟨key, hkey⟩
  rcases session.encrypt_ok hgen hgen' hkey draws.encrypt m.message with ⟨cipher, hcipher⟩
  rcases laws.sign_ok hgen draws.sign m.message with ⟨sig, hsig⟩
  have hsession : createSessionKey E sender.privateKey m.toPeer.publicKey = .ok key := by
    simpa [createSessionKey, hto, hpriv, hpub', laws.stringToKey_keyToString, bind,
      Except.bind] using hkey
  refine ⟨envelope m.toSecretMessage (E.crypto.keyToString cipher) (E.crypto.keyToString sig), ?_⟩
  rw [hpriv] at hsession ⊢
  simp [serialize, hsession, hcipher, laws.stringToKey_keyToString, hsig, bind, Except.bind,
    pure, Except.pure]

/-- Both ends read the text back from what the sender serialized, the sender with the peers
exchanged. -/
theorem ofJson_serialize (laws : E.crypto.SignatureLaws) (session : E.crypto.SessionLaws)
    {sender recipient : Config} (hsender : sender.KeyPairMatches E)
    (hrecipient : recipient.KeyPairMatches E) {m : TextMessage} {draws : Draws} {j : Json}
    (htype : m.type = .textMessage) (hfrom : m.fromPeer.publicKey = sender.publicKey)
    (hto : m.toPeer.publicKey = recipient.publicKey)
    (hj : serialize E m sender.privateKey draws = .ok j) :
    ∃ sig, ∀ createObjectIfError,
      ofJson E j recipient.privateKey false createObjectIfError =
          .ok { m with signature := sig } ∧
        ofJson E j sender.privateKey true createObjectIfError =
          .ok { m with signature := sig } := by
  rcases serialize_eq_ok hj with ⟨key, cipher, priv, sig, hsession, hcipher, hpriv, hsig, rfl⟩
  rcases hsender with ⟨kp, hgen, hpub, hprivate⟩
  rcases hrecipient with ⟨kp', hgen', hpub', hprivate'⟩
  have hlaw := laws.stringToKey_keyToString
  have hkey : E.crypto.createSessionKey kp.privateKey kp'.publicKey = .ok key := by
    simpa [createSessionKey, hto, hprivate, hpub', hlaw, bind, Except.bind] using hsession
  -- the other party computes the same key
  have hkey' : createSessionKey E recipient.privateKey m.fromPeer.publicKey = .ok key := by
    rw [session.session_symm hgen hgen'] at hkey
    simpa [createSessionKey, hfrom, hprivate', hpub, hlaw, bind, Except.bind] using hkey
  have hplain : E.crypto.decrypt cipher key = .ok m.message :=
    session.decrypt_encrypt hgen hgen' hkey hcipher
  have hpublic : E.crypto.stringToKey m.fromPeer.publicKey = .ok kp.publicKey := by
    rw [hfrom, hpub, hlaw]
  have hsign : E.crypto.sign draws.sign m.message kp.privateKey = .ok sig := by
    rw [hprivate, hlaw] at hpriv
    rw [Except.ok.inj hpriv]
    exact hsig
  have hverify : E.crypto.verify m.message sig kp.publicKey = true := laws.verify_sign hgen hsign
  refine ⟨sig, fun createObjectIfError => ⟨?_, ?_⟩⟩
  · exact ofJson_envelope hlaw htype hkey' hplain hpublic hverify
  · exact ofJson_envelope hlaw htype hsession hplain hpublic hverify

end TextMessage
end Messaging

/-! ## Every peer takes the block -/

namespace Network
namespace TCPClient

open Peer Messaging Blockchain BlockchainService Chat AtomicProg PartyMap

variable {E : Env}

/-- The block of an own message over a valid chain fits in a buffer. -/
theorem dumpLen_blockOf (compact : E.crypto.CompactLaws) {cfg : Config}
    (hkeys : cfg.KeyPairMatches E) {message : TextMessage} {t : BlockTable} {block : Block}
    {rnd : Rand} (laws : E.crypto.SignatureLaws)
    (hauthor : message.fromPeer.publicKey = cfg.publicKey)
    (hvalid : ValidBlocks E (ChainDB.loadAllBlocks t))
    (hsign : signBlock E cfg.privateKey rnd
      (unsignedBlock E message ((ChainDB.findTip t).getD Block.default)) = .ok block) :
    block.toJson.dumpLen ≤ bufferSize - 1 := by
  have hof := blockOf_of_signBlock laws hkeys hauthor hsign
  rcases hkeys with ⟨kp, hgen, hpub, hpriv⟩
  have hhash : Json.stringLen block.hash = 66 := by
    rw [← hof.authentic.hash_eq, E.stringLen_sha256]
  -- hashes have 64 characters, keys and signatures what the laws allow
  have hpayload : Json.stringLen block.payloadHash = 66 := by
    rw [hof.payloadHash, E.stringLen_sha256]
  have hauthorLen : Json.stringLen block.authorPublicKey ≤ 8192 := by
    rw [hof.authorPublicKey, hauthor, hpub]
    exact compact.publicKey hgen
  have hprevious : Json.stringLen block.previousHash ≤ 66 := by
    rw [hof.previousHash, findTip_hash, tipHash]
    -- the parent is the marker or the hash of a stored block
    by_cases hempty : ChainDB.loadAllBlocks t = []
    · rw [hempty]
      decide
    · rcases LinkedChain.tip_mem Block.hash "0" hempty with ⟨c, hc, htip⟩
      rw [← htip, ← (hvalid.authentic c hc).hash_eq, E.stringLen_sha256]
  have hsignature : Json.stringLen block.signature ≤ 8192 := by
    rcases laws.sign_ok hgen rnd (unsignedBlock E message
      ((ChainDB.findTip t).getD Block.default)).canonicalBytes with ⟨sig, hsig⟩
    have hblock : block.signature = E.crypto.keyToString sig := by
      simp only [signBlock, hpriv, laws.stringToKey_keyToString, hsig, bind, Except.bind, pure,
        Except.pure, Except.ok.injEq] at hsign
      rw [← hsign]
      rfl
    rw [hblock]
    exact compact.signature hgen hsig
  have htime := Json.length_digits_le block.timestamp
  rw [Block.dumpLen_toJson]
  simp only [bufferSize]
  omega

/-- Peers at different addresses that all find the block acceptable all insert it. -/
theorem broadcast_all (out : Outside) {block : Block} (hlen : block.toJson.dumpLen ≤ bufferSize - 1)
    {peers : List UserPeer} {net : Nodes} (hdistinct : (peers.map UserPeer.toUserHost).Nodup)
    (hacceptable : ∀ p ∈ peers, ∃ n, net p.toUserHost = some n ∧
      Acceptable E (out.blockVisit p).checked n.chain block) :
    (broadcast (sendCallback E out block.toJson) peers net).1 = true ∧
      ∀ h, (broadcast (sendCallback E out block.toJson) peers net).2 h =
        if h ∈ peers.map UserPeer.toUserHost then
          (net h).map fun n => { n with chain := (ChainDB.insertBlock n.chain block).1 }
        else net h := by
  induction peers generalizing net with
  | nil => simp [broadcast]
  | cons p peers ih =>
      rw [List.map_cons, List.nodup_cons] at hdistinct
      rcases hacceptable p List.mem_cons_self with ⟨n, hn, hacc⟩
      rcases sendCallback_cases (E := E) out block p hn with
        ⟨_, hcall⟩ | ⟨hno, _⟩
      -- a block that fits and is acceptable is not refused
      swap
      · exact absurd ⟨hlen, hacc⟩ hno
      have hothers : ∀ q ∈ peers, q.toUserHost ≠ p.toUserHost := by
        intro q hq heq
        exact hdistinct.1 (heq ▸ List.mem_map_of_mem hq)
      -- the addresses differ, so the rest of the peers is still as before
      have hrest : ∀ q ∈ peers, ∃ n, modify p.toUserHost
          (fun n => { n with chain := (ChainDB.insertBlock n.chain block).1 }) net q.toUserHost =
            some n ∧ Acceptable E (out.blockVisit q).checked n.chain block := by
        intro q hq
        rw [modify_of_ne (hothers q hq)]
        exact hacceptable q (List.mem_cons_of_mem _ hq)
      rcases ih hdistinct.2 hrest with ⟨hall, hnodes⟩
      simp only [broadcast, hcall]
      refine ⟨hall, fun h => ?_⟩
      rw [hnodes]
      by_cases hself : h = p.toUserHost
      · subst hself
        rw [if_neg hdistinct.1, modify_self, if_pos (by simp)]
      · simp [hself]

end TCPClient

/-! ## A small network

Nodes of the parties of the first block, and the messages they send, for the places where a
concrete send is wanted. -/

namespace SmallNet

open Peer Messaging Blockchain BlockchainService Chat KeyedTable PartyMap TCPClient

/-- A node without messages. -/
def node (config : Config) (peers : List UserPeer) (chain : BlockTable) : Node where
  config := config
  peers := peers
  newBlocks := []
  peersToReceive := 0
  missingBlocksCount := 0
  chatPeers := Table.empty
  messages := Table.empty
  chain := chain

def net (nodes : List Node) : Nodes := fun h => nodes.find? fun n => n.config.me.toUserHost = h

theorem net_self (n : Node) (nodes : List Node) :
    net (n :: nodes) n.config.me.toUserHost = some n := by
  simp [net]

theorem net_of_ne {n : Node} {host : UserHost} (h : n.config.me.toUserHost ≠ host)
    (nodes : List Node) : net (n :: nodes) host = net nodes host := by
  simp [net, h]

theorem config_ne_rival :
    FirstBlock.config.me.toUserHost ≠ FirstBlock.rivalConfig.me.toUserHost := by
  decide

def visit : Visit := { checked := FirstBlock.now, tick := FirstBlock.tick "r1" }

def outside : Outside where
  blockSign := 0
  draws := { encrypt := 0, sign := 0 }
  textVisit := visit
  blockVisit _ := visit
  errorTick := FirstBlock.tick "e1"
  errorVisit := visit

/-- A text to the other party, under its public key or another one. -/
def messageTo (publicKey : String) (text : Bytes) : TextMessage :=
  TextMessage.create (FirstBlock.tick "m1") FirstBlock.config.me
    { FirstBlock.rivalConfig.me with publicKey } text

/-- The key of the recipient does not enter the block. -/
theorem unsignedBlock_messageTo (publicKey : String) {message : TextMessage} {text : Bytes}
    (htext : message.message = text)
    (hauthor : message.fromPeer.publicKey = FirstBlock.config.publicKey)
    (htime : message.timestamp = getTimestamp FirstBlock.now) (tip : Block) :
    unsignedBlock testEnv (messageTo publicKey text) tip = unsignedBlock testEnv message tip := by
  have hown : (messageTo publicKey text).fromPeer.publicKey = FirstBlock.config.publicKey := rfl
  have hnow : (messageTo publicKey text).timestamp = getTimestamp FirstBlock.now := rfl
  exact (unsignedBlock_eq testEnv rfl hown hnow tip).trans
    (unsignedBlock_eq testEnv htext hauthor htime tip).symm

theorem signBlock_messageTo (publicKey : String) :
    signBlock testEnv FirstBlock.config.privateKey 0
      (unsignedBlock testEnv (messageTo publicKey [104, 105]) Block.default) =
        .ok FirstBlock.block := by
  have htext : FirstBlock.message.message = [104, 105] := rfl
  rw [unsignedBlock_messageTo publicKey htext rfl rfl]
  exact FirstBlock.signBlock_block

theorem signBlock_messageTo_child (publicKey : String) :
    signBlock testEnv FirstBlock.config.privateKey 0
      (unsignedBlock testEnv (messageTo publicKey [97]) FirstBlock.block) =
        .ok FirstBlock.child := by
  have htext : (TextMessage.create (FirstBlock.tick "m2") FirstBlock.config.me
      FirstBlock.rivalConfig.me [97]).message = [97] := rfl
  rw [unsignedBlock_messageTo publicKey htext rfl rfl]
  exact FirstBlock.signBlock_child

/-- The length of such a message grows by two for each byte of the text. -/
theorem dumpLen_messageTo {publicKey blockHash : String} {text : Bytes} {j : Json}
    (hkey : Json.stringLen publicKey = 66) (hhash : Json.stringLen blockHash = 66)
    (hj : ((messageTo publicKey text).setBlockHash blockHash).serialize testEnv
      FirstBlock.config.privateKey outside.draws = .ok j) :
    j.dumpLen = 2 * text.length + 480 := by
  rcases TextMessage.serialize_eq_ok hj with ⟨key, cipher, priv, sig, _, hcipher, _, hsig, rfl⟩
  -- everything but the text has a fixed length
  have hcipherLen : cipher.length = text.length := by
    rw [← Except.ok.inj hcipher]
    exact XORCrypto.length_encrypt text key
  have hsigLen : sig.length = 32 := by
    rw [← Except.ok.inj hsig]
    exact XORCrypto.length_fold32 _
  have hown : Json.stringLen FirstBlock.config.publicKey = 66 :=
    (Json.stringLen_toHex _).trans (by decide)
  have hfrom : FirstBlock.config.me.toJson.dumpLen = 112 := by
    rw [UserPeer.dumpLen_toJson]
    exact congrArg
      (fun n => (Nat.toDigits 10 8001).length + Json.stringLen "127.0.0.1" + n + 31) hown
  have hto : ({ FirstBlock.rivalConfig.me with publicKey } : UserPeer).toJson.dumpLen = 112 := by
    rw [UserPeer.dumpLen_toJson]
    exact congrArg
      (fun n => (Nat.toDigits 10 8002).length + Json.stringLen "127.0.0.1" + n + 31) hkey
  have htime : (Nat.toDigits 10 (getTimestamp FirstBlock.now).toNat).length = 13 := by
    rw [toNat_getTimestamp]
    decide
  have hpayload : Json.stringLen (toHex cipher) = 2 * text.length + 2 := by
    rw [Json.stringLen_toHex, hcipherLen]
  have hsignature : Json.stringLen (toHex sig) = 66 := by
    rw [Json.stringLen_toHex, hsigLen]
  have hlen : (TextMessage.envelope
      ((messageTo publicKey text).setBlockHash blockHash).toSecretMessage
      (toHex cipher) (toHex sig)).dumpLen =
        Json.stringLen "m1" + FirstBlock.config.me.toJson.dumpLen +
        ({ FirstBlock.rivalConfig.me with publicKey } : UserPeer).toJson.dumpLen +
        (Nat.toDigits 10 (getTimestamp FirstBlock.now).toNat).length + Json.stringLen blockHash +
        Json.stringLen (toHex cipher) + Json.stringLen (toHex sig) + 105 :=
    TextMessage.dumpLen_envelope rfl _ _
  have hid : Json.stringLen "m1" = 4 := by decide
  refine hlen.trans ?_
  rw [hid, hfrom, hto, htime, hhash, hpayload, hsignature]
  omega

end SmallNet

end Network

end DChat
