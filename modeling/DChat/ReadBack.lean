import DChat.Agreement

/-!
# ReadBack — a sent message in the chats of both ends

After a send that was stored, both ends have the row of the message and the block in the chain.
Later sends and blocks only add rows with other ids and blocks, so both ends go on reading the
message, once and with its text, and the check against the chain does not report it.  The one
exception is a JSON of exactly `BUFFER_SIZE` bytes: the sender lets it pass, and the recipient
reads one byte less.
-/

namespace DChat
namespace Network

open Utils Crypto Peer Messaging Blockchain BlockchainService Chat KeyedTable AtomicProg PartyMap
open TCPClient Relation

variable {E : Env}

/-! ## What later steps keep -/

/-- The row is about another message. -/
def Unused (id : String) (r : MessageRow) : Prop :=
  r.messageId ≠ .bind id ∧
    ∀ m, Message.ofJson r.messageJson = .ok m → DbText.bind m.id ≠ .bind id

/-- Rows are added for other messages only, and blocks at the end of the chain. -/
structure Kept (id : String) (n n' : Node) : Prop where
  config : n'.config = n.config
  rows : ∀ r ∈ n.messages.data, r ∈ n'.messages.data
  added : ∀ r ∈ n'.messages.data, r ∈ n.messages.data ∨ Unused id r
  chain : n.chain.data <+: n'.chain.data

namespace Kept

variable {id : String} {n n' n'' : Node}

theorem refl (id : String) (n : Node) : Kept id n n where
  config := rfl
  rows _ hr := hr
  added _ hr := Or.inl hr
  chain := List.prefix_rfl

theorem trans (h : Kept id n n') (h' : Kept id n' n'') : Kept id n n'' where
  config := h'.config.trans h.config
  rows r hr := h'.rows r (h.rows r hr)
  added r hr := (h'.added r hr).elim (h.added r) Or.inr
  chain := h.chain.trans h'.chain

end Kept

/-- A later step: another message is sent and its block stored, or a block comes in somewhere. -/
inductive LaterStep (E : Env) (id : String) : Nodes → Nodes → Prop
  | send {net : Nodes} (out : Outside) (own : UserHost) (message : TextMessage) (block : Block)
      (answer : Option Json) (htype : message.type = .textMessage)
      (hid : DbText.bind message.id ≠ .bind id)
      (hend : (sendSecretMessage E out own message net).2 = .stored block answer) :
      LaterStep E id net (sendSecretMessage E out own message net).1
  | block {net : Nodes} (host : UserHost) (visit : Visit) (jData : Json)
      (hblock : (jData.contains "previousHash" && jData.contains "payloadHash") = true) :
      LaterStep E id net (request E net host visit jData).1

/-- The row of a message carries its id twice, outside and inside the JSON. -/
theorem unused_storedRow {out : Outside} {sender : Node} {message : TextMessage} {block : Block}
    {jMessage : Json} {id : String} (hid : DbText.bind message.id ≠ .bind id)
    (hprepare : prepare E out sender message = .ok (block, jMessage)) :
    Unused id (storedRow message block jMessage) := by
  refine ⟨hid, fun m hm => ?_⟩
  rcases prepare_eq_ok.1 hprepare with ⟨_, hjson, _⟩
  rcases TextMessage.serialize_eq_ok hjson with ⟨key, cipher, priv, sig, _, _, _, _, rfl⟩
  have hread := TextMessage.message_ofJson_envelope
    (message.setBlockHash block.hash).toSecretMessage (E.crypto.keyToString cipher)
    (E.crypto.keyToString sig)
  rw [← Except.ok.inj (hread.symm.trans hm)]
  exact hid

theorem kept_insert {id : String} {n n' : Node} {row : MessageRow} (hrow : Unused id row)
    (hconfig : n'.config = n.config)
    (hmessages : n'.messages = (n.messages.insert row).1 ∨ n'.messages = n.messages)
    (hchain : n.chain.data <+: n'.chain.data) : Kept id n n' := by
  have hdata : n'.messages.data = n.messages.data ++ [row] ∨
      n'.messages.data = n.messages.data := by
    rcases hmessages with hinsert | hsame
    · rw [hinsert]
      exact Table.data_insert _ _
    · exact Or.inr (congrArg Table.data hsame)
  refine ⟨hconfig, ?_, ?_, hchain⟩
  · intro r hr
    rcases hdata with hmore | hsame
    · rw [hmore]
      exact List.mem_append_left _ hr
    · rwa [hsame]
  · intro r hr
    rcases hdata with hmore | hsame
    · rw [hmore] at hr
      rcases List.mem_append.1 hr with hold | hnew
      · exact Or.inl hold
      · rw [List.mem_singleton.1 hnew]
        exact Or.inr hrow
    · exact Or.inl (hsame ▸ hr)

/-- One later step keeps every node. -/
theorem LaterStep.kept {id : String} {net net' : Nodes} (h : LaterStep E id net net') :
    Moved (fun _ n n' => Kept id n n') net net' := by
  cases h with
  | send out own message block answer htype hid hend =>
      rcases stored_spec htype hend with ⟨sender, jMessage, _, hprepare, _, hmoved⟩
      apply hmoved.mono
      intro h n n' _ hsent
      refine kept_insert (unused_storedRow hid hprepare) (by rw [hsent.same]) ?_ hsent.grows
      by_cases hstores : h = own ∨ (h = message.toPeer.toUserHost ∧ Takes E n jMessage)
      · exact Or.inl (hsent.stores hstores)
      · exact Or.inr (hsent.leaves hstores)
  | block host visit jData hblock =>
      simp only [request]
      split
      · exact Moved.refl (fun _ n => Kept.refl id n) net
      · rename_i j hreceived
        rcases (received_eq_some.1 hreceived).2 with rfl
        apply Moved.modify
        · intro n _
          simp only [TCPServer.serve, hblock, if_true]
          exact ⟨rfl, fun r hr => hr, fun r hr => Or.inl hr,
            onIncomingBlock_grows n.config.me visit.checked visit.tick n.chain jData⟩
        · intro k n _
          exact Kept.refl id n

/-- So does any number of them. -/
theorem kept_of_reachable {id : String} {net net' : Nodes}
    (h : ReflTransGen (LaterStep E id) net net') : Moved (fun _ n n' => Kept id n n') net net' := by
  induction h with
  | refl => exact Moved.refl (fun _ n => Kept.refl id n) net
  | tail _ hstep ih => exact ih.trans (fun _ _ _ _ h h' => h.trans h') hstep.kept

/-! ## What a stored send leaves at an end -/

/-- The row of the message, and no other row about it, and its block. -/
structure Recorded (id : String) (row : MessageRow) (block : Block) (n : Node) : Prop where
  stored : row ∈ n.messages.data
  others : ∀ r ∈ n.messages.data, r ≠ row → Unused id r
  chained : BlockRow.ofBlock block ∈ n.chain.data

theorem Recorded.mono {id : String} {row : MessageRow} {block : Block} {n n' : Node}
    (h : Recorded id row block n) (hkept : Kept id n n') : Recorded id row block n' where
  stored := hkept.rows row h.stored
  others r hr hne := (hkept.added r hr).elim (fun hold => h.others r hold hne) fun hnew => hnew
  chained := hkept.chain.subset h.chained

theorem Recorded.of_insert {id : String} {row : MessageRow} {block : Block} {n n' : Node}
    (hid : row.messageId = .bind id) (hunused : ∀ r ∈ n.messages.data, Unused id r)
    (hmessages : n'.messages = (n.messages.insert row).1)
    (hchained : BlockRow.ofBlock block ∈ n'.chain.data) : Recorded id row block n' := by
  have hfresh : n.messages.Fresh row := fun r hr => hid ▸ (hunused r hr).1
  have hdata : n'.messages.data = n.messages.data ++ [row] := by
    rw [hmessages, Table.data_insert_of_fresh hfresh]
  refine ⟨by simp [hdata], ?_, hchained⟩
  intro r hr hne
  rw [hdata] at hr
  rcases List.mem_append.1 hr with hold | hnew
  · exact hunused r hold
  · exact absurd (List.mem_singleton.1 hnew) hne

/-! ## Reading it back -/

/-- The chat with the other end has the message once, with its text, and the check trusts it. -/
structure ReadsBack (E : Env) (n : Node) (other id : String) (text : Bytes) : Prop where
  once : ∃ m, (MessageService.findChatMessages E n.config.privateKey n.messages n.config.publicKey
      other).filter (fun m => m.id = id) = [m] ∧ m.message = text ∧
    MessageService.isInvalid E n.messages n.chain m = .ok false
  unreported : id ∉ (MessageService.findInvalidChatMessageIDs E n.messages n.chain
    (MessageService.findChatMessages E n.config.privateKey n.messages n.config.publicKey other)).1

/-- The check finds nothing wrong with a stored message whose block was made from it. -/
theorem isInvalid_of_row {message m : TextMessage} {tip block : Block} {n : Node} {row : MessageRow}
    (hof : BlockOf E message tip block) (hblock : block ∈ ChainDB.loadAllBlocks n.chain)
    (hrow : row ∈ n.messages.data) (hid : row.messageId = .bind m.id)
    (hrowHash : row.blockHash = .bind block.hash) (hhash : m.blockHash = block.hash)
    (hauthor : m.fromPeer = message.fromPeer) (htime : m.timestamp = message.timestamp)
    (htext : m.message = message.message) :
    MessageService.isInvalid E n.messages n.chain m = .ok false := by
  have hnul : cString block.hash = block.hash := cString_of_noNul hof.authentic.noNul_hash
  have hfind : ChainDB.findBlockByHash n.chain m.blockHash = some block := by
    rw [hhash]
    exact ChainDB.findBlockByHash_of_mem hblock hnul.symm
  refine MessageService.isInvalid_eq_false ?_ ?_ hfind
    (compareBlockWithMessage_blockOf hof hauthor htime htext)
  · rw [MessageDB.findBlockHashByMessageId_of_mem hrow hid, hrowHash, hhash]
    exact congrArg some hnul
  · rw [hhash, ← hof.authentic.hash_eq]
    intro hempty
    have hlen := E.length_sha256 block.canonicalBytes
    rw [hempty] at hlen
    exact absurd hlen (by decide)

theorem Recorded.readsBack {message m : TextMessage} {tip block : Block} {jMessage : Json}
    {n : Node} {other : String} (sent : Bool)
    (h : Recorded message.id (storedRow message block jMessage) block n)
    (hof : BlockOf E message tip block) (hstorable : block.Storable)
    (hto : DbText.bind message.toPeer.publicKey =
      .bind (if sent then other else n.config.publicKey))
    (hfrom : DbText.bind message.fromPeer.publicKey =
      .bind (if sent then n.config.publicKey else other))
    (hkeys : DbText.bind n.config.publicKey ≠ .bind other)
    (hread : TextMessage.ofJson E jMessage n.config.privateKey sent true = .ok m)
    (hm : m.toMessage = message.toMessage) (hhash : m.blockHash = block.hash)
    (htext : m.message = message.message) :
    ReadsBack E n other message.id message.message := by
  have hid : m.id = message.id := congrArg Message.id hm
  have hothers : ∀ r ∈ n.messages.data, r ≠ storedRow message block jMessage → ∀ invert m',
      MessageDB.readRow E n.config.privateKey invert r = some m' → m'.id ≠ message.id := by
    intro r hr hne invert m' hm' heq
    have hdecode := TextMessage.message_of_ofJson (MessageDB.readRow_eq_some.1 hm')
    exact (h.others r hr hne).2 _ hdecode (congrArg DbText.bind heq)
  have hone : (MessageService.findChatMessages E n.config.privateKey n.messages n.config.publicKey
      other).filter (fun m => m.id = message.id) = [m] :=
    MessageDB.findChatMessages_filter h.stored hto hfrom hkeys
      (MessageDB.readRow_eq_some.2 hread) hid hothers
  have htrusted : MessageService.isInvalid E n.messages n.chain m = .ok false := by
    have hmem : block ∈ ChainDB.loadAllBlocks n.chain := by
      have hrow := List.mem_map_of_mem (f := BlockRow.toBlock) h.chained
      rwa [BlockRow.toBlock_ofBlock hstorable] at hrow
    exact isInvalid_of_row hof hmem h.stored (congrArg DbText.bind hid.symm) rfl hhash
      (congrArg Message.fromPeer hm) (congrArg Message.timestamp hm) htext
  refine ⟨⟨m, hone, htext, htrusted⟩, ?_⟩
  -- only this message could report the id
  intro hreported
  rcases MessageService.exists_invalid hreported with ⟨m', hm', hid', hinvalid⟩
  have hmem : m' ∈ [m] := by
    rw [← hone]
    exact List.mem_filter.2 ⟨hm', by simpa using hid'⟩
  rw [List.mem_singleton.1 hmem, htrusted] at hinvalid
  cases hinvalid

/-- A node without a row about the message does not read it. -/
theorem not_readsBack {n : Node} {other id : String} {text : Bytes}
    (hunused : ∀ r ∈ n.messages.data, Unused id r) : ¬ ReadsBack E n other id text := by
  rintro ⟨⟨m, hone, _⟩, _⟩
  have hmem : m ∈ (MessageService.findChatMessages E n.config.privateKey n.messages
      n.config.publicKey other).filter (fun m => m.id = id) := by
    rw [hone]
    exact List.mem_singleton.2 rfl
  rcases List.mem_filter.1 hmem with ⟨hm, hid⟩
  -- whatever is in a chat was read from a row
  have hrow : ∃ r ∈ n.messages.data, ∃ invert,
      MessageDB.readRow E n.config.privateKey invert r = some m := by
    rcases List.mem_append.1 ((List.mergeSort_perm _ _).mem_iff.1 hm) with hin | hout
    · rcases List.mem_filterMap.1 hin with ⟨r, hr, hread⟩
      exact ⟨r, List.mem_of_mem_filter hr, false, hread⟩
    · rcases List.mem_filterMap.1 hout with ⟨r, hr, hread⟩
      exact ⟨r, List.mem_of_mem_filter hr, true, hread⟩
  rcases hrow with ⟨r, hr, invert, hread⟩
  have hdecode := TextMessage.message_of_ofJson (MessageDB.readRow_eq_some.1 hread)
  exact (hunused r hr).2 _ hdecode (congrArg DbText.bind (of_decide_eq_true hid))

theorem noNul_publicKey (laws : E.crypto.SignatureLaws) {cfg : Config}
    (hkeys : cfg.KeyPairMatches E) : NoNul cfg.publicKey := by
  rcases hkeys with ⟨kp, _, hpub, _⟩
  rw [hpub]
  exact laws.noNul_keyToString _

theorem bind_publicKey_ne (laws : E.crypto.SignatureLaws) {a b : Config} (ha : a.KeyPairMatches E)
    (hb : b.KeyPairMatches E) (hne : a.publicKey ≠ b.publicKey) :
    DbText.bind a.publicKey ≠ .bind b.publicKey := by
  intro heq
  have htext : cString a.publicKey = cString b.publicKey := congrArg DbText.text heq
  rw [cString_of_noNul (noNul_publicKey laws ha),
    cString_of_noNul (noNul_publicKey laws hb)] at htext
  exact hne htext

/-- A message whose block was stored is read back by both ends, now and after any later steps, if
and only if its JSON leaves room for one more byte in the buffer. -/
theorem sent_message_read_back_iff (laws : E.crypto.SignatureLaws) (session : E.crypto.SessionLaws)
    {out : Outside} {own : UserHost} {net : Nodes} {sender r : Node} {tick : Tick} {peer : UserPeer}
    {text : Bytes} {block : Block} {jMessage : Json} {answer : Option Json}
    (hown : net own = some sender) (hto : net peer.toUserHost = some r)
    (hsender : sender.config.KeyPairMatches E) (hrecipient : r.config.KeyPairMatches E)
    (hkey : peer.publicKey = r.config.publicKey)
    (hdistinct : sender.config.publicKey ≠ r.config.publicKey)
    (hvalid : validateLocalChain E sender.chain = .ok true)
    (hvalid' : validateLocalChain E r.chain = .ok true) (hpeer : peer ∈ sender.peers)
    (hunused : ∀ row ∈ sender.messages.data, Unused tick.uuid row)
    (hunused' : ∀ row ∈ r.messages.data, Unused tick.uuid row)
    (hprepare : prepare E out sender (TextMessage.create tick sender.config.me peer text) =
      .ok (block, jMessage))
    (hend :
      (sendSecretMessage E out own (TextMessage.create tick sender.config.me peer text) net).2 =
        .stored block answer) :
    (∀ net', ReflTransGen (LaterStep E tick.uuid)
        (sendSecretMessage E out own (TextMessage.create tick sender.config.me peer text)
          net).1 net' →
      ∃ s' r', net' own = some s' ∧ net' peer.toUserHost = some r' ∧
        ReadsBack E s' r.config.publicKey tick.uuid text ∧
        ReadsBack E r' sender.config.publicKey tick.uuid text) ↔
      jMessage.dumpLen ≤ bufferSize - 1 := by
  rcases prepare_eq_ok.1 hprepare with ⟨hsign, hjson, _⟩
  rcases stored_spec rfl hend with ⟨sender', jMessage', hown', hprepare', _, hmoved⟩
  rcases Option.some.inj (hown.symm.trans hown') with rfl
  rcases Except.ok.inj (hprepare.symm.trans hprepare') with ⟨_, rfl⟩
  rcases hmoved.of_some hown with ⟨s₁, hs₁, hsentOwn⟩
  rcases hmoved.of_some hto with ⟨r₁, hr₁, hsentTo⟩
  have hne : peer.toUserHost ≠ own := by
    intro heq
    rw [heq, hown] at hto
    exact hdistinct (congrArg (fun n => n.config.publicKey) (Option.some.inj hto))
  constructor
  · intro hreads
    by_contra hbig
    rcases hreads _ .refl with ⟨_, r', _, hr', _, hread⟩
    rcases Option.some.inj (hr₁.symm.trans hr') with rfl
    -- a text that was cut is not parsed, so the recipient has no row about the message
    refine not_readsBack ?_ hread
    rw [hsentTo.leaves]
    · exact hunused'
    · rintro (hself | ⟨_, htakes⟩)
      · exact hne hself
      · exact hbig htakes.1
  · intro hsmall net' hlater
    have hblocks := validateLocalChain_eq_true.1 hvalid
    have hauthor : (TextMessage.create tick sender.config.me peer text).fromPeer.publicKey =
        sender.config.publicKey := rfl
    have hof := blockOf_of_signBlock laws hsender hauthor hsign
    have hstorable : block.Storable := by
      have hnow := getTimestamp_lt tick.now
      refine hof.storable ((findTip_hash sender.chain).symm ▸ hblocks.noNul_tip) ?_
      exact show (getTimestamp tick.now).toNat < 2 ^ 63 by omega
    rcases TextMessage.ofJson_serialize laws session hsender hrecipient
      (m := (TextMessage.create tick sender.config.me peer text).setBlockHash block.hash) rfl rfl
      hkey hjson with ⟨sig, hread⟩
    have htakes : Takes E r jMessage := ⟨hsmall, _, (hread false).1⟩
    have hreached : peer.toUserHost ∈ sender.peers.map UserPeer.toUserHost ++ [own] :=
      List.mem_append_left _ (List.mem_map_of_mem hpeer)
    -- both ends hold the row and the block now, and keep them along the later steps
    have hkept := kept_of_reachable hlater
    rcases hkept.of_some hs₁ with ⟨s', hs', hkeptOwn⟩
    rcases hkept.of_some hr₁ with ⟨r', hr', hkeptTo⟩
    have hconfig : s'.config = sender.config := by rw [hkeptOwn.config, hsentOwn.same]
    have hconfig' : r'.config = r.config := by rw [hkeptTo.config, hsentTo.same]
    have hrecorded : Recorded tick.uuid
        (storedRow (TextMessage.create tick sender.config.me peer text) block jMessage) block s' :=
      (Recorded.of_insert rfl hunused (hsentOwn.stores (Or.inl rfl))
        (hsentOwn.takes (by simp) hblocks)).mono hkeptOwn
    have hrecorded' : Recorded tick.uuid
        (storedRow (TextMessage.create tick sender.config.me peer text) block jMessage) block r' :=
      (Recorded.of_insert rfl hunused' (hsentTo.stores (Or.inr ⟨rfl, htakes⟩))
        (hsentTo.takes hreached (validateLocalChain_eq_true.1 hvalid'))).mono hkeptTo
    -- each end reads with its own private key
    have hreadOwn := (hread true).2
    have hreadTo := (hread true).1
    rw [← show s'.config.privateKey = sender.config.privateKey by rw [hconfig]] at hreadOwn
    rw [← show r'.config.privateKey = r.config.privateKey by rw [hconfig']] at hreadTo
    refine ⟨s', r', hs', hr', ?_, ?_⟩
    · refine hrecorded.readsBack true hof hstorable (congrArg DbText.bind hkey) ?_ ?_ hreadOwn
        rfl rfl rfl
      · rw [hconfig]
        rfl
      · rw [hconfig]
        exact bind_publicKey_ne laws hsender hrecipient hdistinct
    · refine hrecorded'.readsBack false hof hstorable ?_ rfl ?_ hreadTo rfl rfl rfl
      · rw [hconfig']
        exact congrArg DbText.bind hkey
      · rw [hconfig']
        exact bind_publicKey_ne laws hrecipient hsender hdistinct.symm

namespace SmallNet

/-- The text `hi` is read by both ends. -/
theorem sent_message_read_back_pair :
    ∃ s' r', (sendSecretMessage testEnv outside FirstBlock.config.me.toUserHost
        (send [104, 105]).message pair).1 FirstBlock.config.me.toUserHost = some s' ∧
      (sendSecretMessage testEnv outside FirstBlock.config.me.toUserHost
        (send [104, 105]).message pair).1 FirstBlock.rivalConfig.me.toUserHost = some r' ∧
      ReadsBack testEnv s' FirstBlock.rivalConfig.publicKey "m1" [104, 105] ∧
      ReadsBack testEnv r' FirstBlock.config.publicKey "m1" [104, 105] := by
  rcases stored_send [104, 105] (by decide) with
    ⟨block, jMessage, answer, hprepare, hlen, hstored, _⟩
  have hsmall : jMessage.dumpLen ≤ bufferSize - 1 := by
    rw [hlen]
    decide
  have hvalid : validateLocalChain testEnv Table.empty = .ok true :=
    validateLocalChain_eq_true.2 ValidBlocks.nil
  have hkeys : FirstBlock.config.publicKey ≠ FirstBlock.rivalConfig.publicKey := by decide +kernel
  exact (sent_message_read_back_iff XORCrypto.signatureLaws XORCrypto.sessionLaws pair_config
    pair_rivalConfig FirstBlock.keyPairMatches FirstBlock.rival_keyPairMatches rfl hkeys hvalid
    hvalid List.mem_cons_self (fun _ h => by cases h) (fun _ h => by cases h) hprepare
    hstored).2 hsmall _ .refl

/-- A text whose JSON fills the buffer is stored by the sender, and its block by both, and the
recipient does not have the message. -/
theorem full_buffer_not_read :
    ∃ block answer r', (sendSecretMessage testEnv outside FirstBlock.config.me.toUserHost
        (send (List.replicate 16144 104)).message pair).2 = .stored block answer ∧
      (sendSecretMessage testEnv outside FirstBlock.config.me.toUserHost
        (send (List.replicate 16144 104)).message pair).1 FirstBlock.rivalConfig.me.toUserHost =
          some r' ∧
      ChainDB.loadAllBlocks r'.chain = [block] ∧
      ¬ ReadsBack testEnv r' FirstBlock.config.publicKey "m1" (List.replicate 16144 104) := by
  rcases stored_send (List.replicate 16144 104) List.length_replicate.le with
    ⟨block, jMessage, answer, hprepare, hlen, hstored, hagree⟩
  rcases hagree _ (List.mem_cons_of_mem _ List.mem_cons_self) with ⟨r', hr', _, _, hload, _⟩
  refine ⟨block, answer, r', hstored, hr', hload, ?_⟩
  rcases stored_spec rfl hstored with ⟨sender, jMessage', hown, hprepare', _, hmoved⟩
  rcases Option.some.inj (pair_config.symm.trans hown) with rfl
  rcases Except.ok.inj (hprepare.symm.trans hprepare') with ⟨_, rfl⟩
  rcases hmoved.of_some pair_rivalConfig with ⟨r₁, hr₁, hsent⟩
  rcases Option.some.inj (hr₁.symm.trans hr') with rfl
  -- the socket reads one byte less than there are
  have hempty : r₁.messages.data = [] := by
    rw [hsent.leaves]
    · rfl
    · rintro (hself | ⟨_, htakes⟩)
      · exact config_ne_rival hself.symm
      · have hroom := htakes.1
        rw [hlen, List.length_replicate] at hroom
        exact absurd hroom (by decide)
  exact not_readsBack (by simp [hempty])

end SmallNet

end Network
end DChat
