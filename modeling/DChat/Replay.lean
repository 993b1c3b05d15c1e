import DChat.ReadBack
import DChat.Refusal

/-!
# Replay — the stored messages that one block vouches for

The check of a chat compares the sender, the time and the text of a message with its block.  The
id is neither in the block nor under the signature, so a captured message can be stored again under
a new id, and the copy is trusted like the first.  What a block does fix is the content: whatever
requests a node has served, all messages that are trusted for one block have the same sender key,
time and text up to the first NUL, and each id is stored once.
-/

namespace DChat

open Utils Crypto Peer Messaging Blockchain KeyedTable Fallible

/-! ## What the check asks for -/

namespace Messaging

namespace MessageService

theorem compared_of_isInvalid {E : Env} {t : MessageTable} {chain : BlockTable}
    {message : TextMessage} (h : isInvalid E t chain message = .ok false) :
    ∃ block, ChainDB.findBlockByHash chain message.blockHash = some block ∧
      BlockchainService.compareBlockWithMessage E block message = .ok none := by
  rw [isInvalid] at h
  rcases hrow : MessageDB.findBlockHashByMessageId t message.id with _ | blockHash
  · simp [hrow] at h
  rw [hrow] at h
  -- the stored hash must be there and agree with the message
  by_cases hother : (blockHash.isEmpty || decide (blockHash ≠ message.blockHash)) = true
  · simp only [hother, if_true] at h
    cases h
  simp only [hother] at h
  have hsame : blockHash = message.blockHash := by
    by_contra hne
    simp [hne] at hother
  rw [hsame] at h
  rcases hfind : ChainDB.findBlockByHash chain message.blockHash with _ | block
  · simp [hfind] at h
  · simp only [hfind] at h
    rcases bind_eq_ok.1 h with ⟨error, hcompare, hnone⟩
    have herror : error = none := by simpa using Except.ok.inj hnone
    exact ⟨block, rfl, herror ▸ hcompare⟩

/-- When the check gets to its end, what it does not report is what it finds valid. -/
theorem valid_of_unreported {E : Env} {t : MessageTable} {chain : BlockTable}
    {messages : List TextMessage} (hend : (findInvalidChatMessageIDs E t chain messages).2 = none)
    {message : TextMessage} (hmem : message ∈ messages)
    (hid : message.id ∉ (findInvalidChatMessageIDs E t chain messages).1) :
    isInvalid E t chain message = .ok false := by
  induction messages with
  | nil => cases hmem
  | cons first rest ih =>
      -- a check that throws ends the pass, and the pass is known to have ended well
      cases hcheck : isInvalid E t chain first with
      | error e => simp [findInvalidChatMessageIDs, hcheck] at hend
      | ok invalid =>
          simp only [findInvalidChatMessageIDs, hcheck] at hend hid
          have hrest : message.id ∉ (findInvalidChatMessageIDs E t chain rest).1 := by
            intro h
            cases invalid <;> exact hid (by simp [h])
          rcases List.mem_cons.1 hmem with rfl | htail
          · cases invalid with
            | false => exact hcheck
            | true => simp at hid
          · exact ih hend htail hrest

/-- A chat of valid messages is checked to its end, and nothing is reported. -/
theorem findInvalidChatMessageIDs_eq_nil {E : Env} {t : MessageTable} {chain : BlockTable}
    {messages : List TextMessage} (h : ∀ m ∈ messages, isInvalid E t chain m = .ok false) :
    findInvalidChatMessageIDs E t chain messages = ([], none) := by
  induction messages with
  | nil => rfl
  | cons m ms ih =>
      simp [findInvalidChatMessageIDs, h m List.mem_cons_self,
        ih fun m' hm' => h m' (List.mem_cons_of_mem _ hm')]

end MessageService

/-- A row of one of the two views gives a message of the chat. -/
theorem MessageDB.mem_findChatMessages {E : Env} {privateKey peerA peerB : String}
    {t : MessageTable} {m : TextMessage} :
    m ∈ (findChatMessages E privateKey t peerA peerB).1 ↔
      ∃ sent, ∃ r ∈ selectChat t (if sent then peerB else peerA) (if sent then peerA else peerB),
        readRow E privateKey sent r = some m := by
  rw [findChatMessages, (List.mergeSort_perm _ _).mem_iff, List.mem_append, List.mem_filterMap,
    List.mem_filterMap, Bool.exists_bool]
  rfl

end Messaging

/-! ## The content of a trusted message -/

namespace Network

open Chat BlockchainService

variable {E : Env}

/-- The messages of the table are kept under the ids that their JSON carries. -/
def Indexed (t : MessageTable) : Prop :=
  ∀ r ∈ t.data, ∀ m, Message.ofJson r.messageJson = .ok m → r.messageId = .bind m.id

/-- A stored message that names the block is shown in a chat, and the check of this chat gets to
its end without reporting it. -/
structure Trusted (E : Env) (n : Node) (block : Block) (r : MessageRow) (m : TextMessage) :
    Prop where
  names : m.blockHash = block.hash
  unreported : ∃ peerA peerB sent,
    r ∈ MessageDB.selectChat n.messages (if sent then peerB else peerA)
      (if sent then peerA else peerB) ∧
    MessageDB.readRow E n.config.privateKey sent r = some m ∧
    let messages := MessageService.findChatMessages E n.config.privateKey n.messages peerA peerB
    (MessageService.findInvalidChatMessageIDs E n.messages n.chain messages).2 = none ∧
      m.id ∉ (MessageService.findInvalidChatMessageIDs E n.messages n.chain messages).1

/-- The author of the block wrote the text at the time of the block. -/
structure Vouched (E : Env) (block : Block) (m : TextMessage) : Prop where
  author : block.authorPublicKey = m.fromPeer.publicKey
  timestamp : block.timestamp = m.timestamp
  text : E.sha256 (cBytes m.message) = block.payloadHash
  signed : m.message = TextMessage.crashedMessage ∨ ∃ publicKey,
    E.crypto.stringToKey block.authorPublicKey = .ok publicKey ∧
      E.crypto.verify m.message m.signature publicKey = true

/-- The requests, one after the other. -/
def TCPServer.serveAll (E : Env) (n : Node) (requests : List (Visit × Json)) : Node :=
  requests.foldl (fun n x => (TCPServer.serve E n x.1 x.2).1) n

theorem TCPServer.serveAll_cons (E : Env) (n : Node) (x : Visit × Json)
    (requests : List (Visit × Json)) :
    serveAll E n (x :: requests) = serveAll E (serve E n x.1 x.2).1 requests := rfl

/-- What a request adds to the table is a text under the id of its JSON. -/
theorem Indexed.serve {n : Node} (h : Indexed n.messages) (visit : Visit) (j : Json) :
    Indexed (TCPServer.serve E n visit j).1.messages := by
  cases hblock : j.contains "previousHash" && j.contains "payloadHash" with
  | true =>
      rw [TCPServer.serve_of_block n visit hblock]
      exact h
  | false =>
      rw [TCPServer.serve_of_message n visit hblock, Request.handleIncomingMessage_eq]
      rcases hdecode : Request.decode (Request.decodeText E n.config.privateKey) j with
        e | request
      · cases e <;> exact h
      · intro r hr m hm
        by_cases hold : r ∈ n.messages.data
        · exact h r hold m hm
        · rcases ChatService.messages_handle hr hold with ⟨message, rfl, rfl⟩
          have htext := TextMessage.message_of_ofJson (ChatService.text_of_decode hdecode)
          rw [← Except.ok.inj (htext.symm.trans hm)]
          rfl

theorem Indexed.serveAll {n : Node} (h : Indexed n.messages) (requests : List (Visit × Json)) :
    Indexed (TCPServer.serveAll E n requests).messages := by
  induction requests generalizing n with
  | nil => exact h
  | cons x xs ih => exact ih (h.serve x.1 x.2)

theorem Trusted.vouched {n : Node} {block : Block} {r : MessageRow} {m : TextMessage}
    (h : Trusted E n block r m) (hblock : block ∈ ChainDB.loadAllBlocks n.chain) :
    Vouched E block m := by
  rcases h.unreported with ⟨peerA, peerB, sent, hr, hread, hend, hid⟩
  have hmem : m ∈ MessageService.findChatMessages E n.config.privateKey n.messages peerA peerB :=
    MessageDB.mem_findChatMessages.2 ⟨sent, r, hr, hread⟩
  rcases MessageService.compared_of_isInvalid (MessageService.valid_of_unreported hend hmem hid)
    with ⟨found, hfind, hcompare⟩
  -- hashes are unique in the chain
  have hfound : found = block := by
    have hhash : block.hash = cString m.blockHash := by
      rw [h.names, cString_of_noNul (ChainDB.storable_of_mem hblock).hash]
    exact Option.some.inj (hfind.symm.trans (ChainDB.findBlockByHash_of_mem hblock hhash))
  rcases compareBlockWithMessage_eq_none.1 (hfound ▸ hcompare) with ⟨hauthor, htime, htext, _⟩
  refine ⟨hauthor, htime, htext, ?_⟩
  rw [hauthor]
  exact TextMessage.verified_of_ofJson (MessageDB.readRow_eq_some.1 hread)

theorem Trusted.messageId {n : Node} (hn : Indexed n.messages) {block : Block} {r : MessageRow}
    {m : TextMessage} (h : Trusted E n block r m) :
    r ∈ n.messages.data ∧ r.messageId = .bind m.id := by
  rcases h.unreported with ⟨peerA, peerB, sent, hr, hread, _⟩
  have hstored : r ∈ n.messages.data := List.mem_of_mem_filter hr
  have hdecode := TextMessage.message_of_ofJson (MessageDB.readRow_eq_some.1 hread)
  exact ⟨hstored, hn r hstored _ hdecode⟩

/-- Whatever requests were served, all messages that are trusted for a block of the chain are from
its author, of its time and of one text up to the first NUL, and no two of them have one id. -/
theorem one_block_one_text {n : Node} (hn : Indexed n.messages) (requests : List (Visit × Json))
    {block : Block}
    (hblock : block ∈ ChainDB.loadAllBlocks (TCPServer.serveAll E n requests).chain)
    {r r' : MessageRow} {m m' : TextMessage}
    (h : Trusted E (TCPServer.serveAll E n requests) block r m)
    (h' : Trusted E (TCPServer.serveAll E n requests) block r' m')
    (hS : E.CollisionFree {cBytes m.message, cBytes m'.message}) :
    Vouched E block m ∧ Vouched E block m' ∧ cBytes m.message = cBytes m'.message ∧
      (DbText.bind m.id = .bind m'.id → r = r') := by
  have hvouched := h.vouched hblock
  have hvouched' := h'.vouched hblock
  refine ⟨hvouched, hvouched', ?_, ?_⟩
  · exact hS (by simp) (by simp) (hvouched.text.trans hvouched'.text.symm)
  · intro hid
    have hindexed := hn.serveAll (E := E) requests
    rcases h.messageId hindexed with ⟨hr, hkey⟩
    rcases h'.messageId hindexed with ⟨hr', hkey'⟩
    exact Table.eq_of_key_eq hr hr' (hkey.trans (hid.trans hkey'.symm))

/-! ## A copy under another id -/

/-- The id stands in no other place of the JSON than its own. -/
theorem set_id_envelope (m : SecretMessage) (cipher signature id : String) :
    (TextMessage.envelope m cipher signature).set "id" (.string id) =
      TextMessage.envelope { m with id := id } cipher signature := rfl

/-- So what the sender serialized can be given another id. -/
theorem serialize_relabelled {m : TextMessage} {privateKey : String} {draws : TextMessage.Draws}
    {j : Json} (hj : m.serialize E privateKey draws = .ok j) (id : String) :
    ({ m with id := id } : TextMessage).serialize E privateKey draws =
      .ok (j.set "id" (.string id)) := by
  rcases TextMessage.serialize_eq_ok hj with ⟨key, cipher, priv, sig, hkey, hcipher, hpriv, hsig,
    rfl⟩
  rw [set_id_envelope]
  simp [TextMessage.serialize, hkey, hcipher, hpriv, hsig, bind, Except.bind, pure, Except.pure]

/-- The recipient decodes and stores it, if the id is new. -/
theorem serve_serialized (laws : E.crypto.SignatureLaws) (session : E.crypto.SessionLaws)
    {sender : Config} (hsender : sender.KeyPairMatches E) {n : Node}
    (hn : n.config.KeyPairMatches E) {m : TextMessage} (htype : m.type = .textMessage)
    (hfrom : m.fromPeer.publicKey = sender.publicKey)
    (hto : m.toPeer.publicKey = n.config.publicKey) {draws : TextMessage.Draws} {j : Json}
    (hj : m.serialize E sender.privateKey draws = .ok j) (visit : Visit) :
    (TCPServer.serve E n visit j).1 =
      (ChatService.handleIncomingTextMessage n visit.tick m j).1 := by
  rcases TextMessage.ofJson_serialize laws session hsender hn htype hfrom hto hj with ⟨sig, hread⟩
  rcases TextMessage.serialize_eq_ok hj with ⟨key, cipher, priv, sig', _, _, _, _, rfl⟩
  rcases TCPServer.serve_envelope (E := E) n visit (m := m.toSecretMessage) htype with
    ⟨m', hdecode, hnode, _⟩ | ⟨e, hdecode, _⟩
  · rw [hnode, ← Except.ok.inj ((hread false).1.symm.trans hdecode)]
    rfl
  · cases (hread false).1.symm.trans hdecode

/-- The row of such a message is read back as the message. -/
theorem readRow_serialized (laws : E.crypto.SignatureLaws) (session : E.crypto.SessionLaws)
    {sender recipient : Config} (hsender : sender.KeyPairMatches E)
    (hrecipient : recipient.KeyPairMatches E) {m : TextMessage} (htype : m.type = .textMessage)
    (hfrom : m.fromPeer.publicKey = sender.publicKey)
    (hto : m.toPeer.publicKey = recipient.publicKey) {draws : TextMessage.Draws} {j : Json}
    (hj : m.serialize E sender.privateKey draws = .ok j) :
    ∃ sig, MessageDB.readRow E recipient.privateKey false (.ofMessage m j m.blockHash) =
      some { m with signature := sig } := by
  rcases TextMessage.ofJson_serialize laws session hsender hrecipient htype hfrom hto hj with
    ⟨sig, hread⟩
  exact ⟨sig, MessageDB.readRow_eq_some.2 (hread true).1⟩

/-- The rows of a chat without sent messages are trusted when the check finds all of them valid. -/
theorem trusted_of_all_valid {n : Node} {block : Block} {peerA peerB : String}
    (hsent : MessageDB.selectChat n.messages peerB peerA = [])
    (hvalid : ∀ r ∈ MessageDB.selectChat n.messages peerA peerB, ∀ m,
      MessageDB.readRow E n.config.privateKey false r = some m →
        MessageService.isInvalid E n.messages n.chain m = .ok false)
    {r : MessageRow} (hr : r ∈ MessageDB.selectChat n.messages peerA peerB) {m : TextMessage}
    (hread : MessageDB.readRow E n.config.privateKey false r = some m)
    (hnames : m.blockHash = block.hash) : Trusted E n block r m := by
  -- nothing was sent, so every message of the chat is a received one
  have hcheck : MessageService.findInvalidChatMessageIDs E n.messages n.chain
      (MessageService.findChatMessages E n.config.privateKey n.messages peerA peerB) =
        ([], none) := by
    apply MessageService.findInvalidChatMessageIDs_eq_nil
    intro m' hm'
    rcases MessageDB.mem_findChatMessages.1 hm' with ⟨sent, r', hr', hread'⟩
    cases sent with
    | false => exact hvalid r' hr' m' hread'
    | true =>
        have hempty : r' ∈ MessageDB.selectChat n.messages peerB peerA := hr'
        rw [hsent] at hempty
        cases hempty
  refine ⟨hnames, peerA, peerB, false, hr, hread, ?_, ?_⟩
  · rw [hcheck]
  · rw [hcheck]
    exact List.not_mem_nil

/-- A node that holds the block of a message and is sent the message, and then the same JSON under
another id, trusts both. -/
theorem resent_copy_trusted (laws : E.crypto.SignatureLaws) (session : E.crypto.SessionLaws)
    {sender : Config} (hsender : sender.KeyPairMatches E) {n : Node}
    (hn : n.config.KeyPairMatches E) (hempty : n.messages.data = []) {m : TextMessage}
    {tip block : Block} (hof : BlockOf E m tip block)
    (hblock : block ∈ ChainDB.loadAllBlocks n.chain) (hhash : m.blockHash = block.hash)
    (htype : m.type = .textMessage) (hfrom : m.fromPeer.publicKey = sender.publicKey)
    (hto : m.toPeer.publicKey = n.config.publicKey)
    (hkeys : DbText.bind n.config.publicKey ≠ .bind sender.publicKey)
    {draws : TextMessage.Draws} {j : Json} (hj : m.serialize E sender.privateKey draws = .ok j)
    {id : String} (hid : DbText.bind m.id ≠ .bind id) (visit visit' : Visit) :
    let n' := TCPServer.serveAll E n [(visit, j), (visit', j.set "id" (.string id))]
    block ∈ ChainDB.loadAllBlocks n'.chain ∧ ∃ r r' sig sig', r ≠ r' ∧
      Trusted E n' block r { m with signature := sig } ∧
      Trusted E n' block r' { m with id := id, signature := sig' } := by
  let copy : TextMessage := { m with id := id }
  let r := MessageRow.ofMessage m j m.blockHash
  let r' := MessageRow.ofMessage copy (j.set "id" (.string id)) m.blockHash
  intro n'
  have hcopy : copy.serialize E sender.privateKey draws = .ok (j.set "id" (.string id)) :=
    serialize_relabelled hj id
  have hofCopy : BlockOf E copy tip block := { hof with }
  -- both are stored
  have hn' : n' = { n with
      messages := ((n.messages.insert r).1.insert r').1
      chatPeers := PeerDB.addPeer (PeerDB.addPeer n.chatPeers m.fromPeer) m.fromPeer } := by
    have hfirst := serve_serialized laws session hsender hn htype hfrom hto hj visit
    have hsecond := serve_serialized (m := copy) laws session hsender
      (n := (ChatService.handleIncomingTextMessage n visit.tick m j).1) hn htype hfrom hto hcopy
      visit'
    rw [← hfirst] at hsecond
    exact hsecond.trans (by rw [hfirst]; rfl)
  have hdata : n'.messages.data = [r, r'] := by
    have hone : (n.messages.insert r).1.data = [r] := by
      rw [Table.data_insert_of_fresh (by simp [Table.Fresh, hempty]), hempty, List.nil_append]
    have hfresh : (n.messages.insert r).1.Fresh r' := by
      intro x hx
      rw [hone, List.mem_singleton] at hx
      exact hx ▸ hid
    rw [hn', Table.data_insert_of_fresh hfresh, hone]
    rfl
  rcases readRow_serialized laws session hsender hn htype hfrom hto hj with ⟨sig, hread⟩
  rcases readRow_serialized (m := copy) laws session hsender hn htype hfrom hto hcopy with
    ⟨sig', hread'⟩
  have hblock' : block ∈ ChainDB.loadAllBlocks n'.chain := by
    rw [hn']
    exact hblock
  have hconfig : n'.config = n.config := by rw [hn']
  rw [← hconfig] at hread hread'
  -- the check compares with the block what both have from the same message
  have hvalid : ∀ x ∈ MessageDB.selectChat n'.messages n.config.publicKey sender.publicKey, ∀ y,
      MessageDB.readRow E n'.config.privateKey false x = some y →
        MessageService.isInvalid E n'.messages n'.chain y = .ok false := by
    intro x hx y hy
    have hmem : x ∈ [r, r'] := hdata ▸ List.mem_of_mem_filter hx
    have hstored : x ∈ n'.messages.data := hdata.symm ▸ hmem
    rcases List.mem_cons.1 hmem with rfl | hlast
    · rw [← Option.some.inj (hread.symm.trans hy)]
      exact isInvalid_of_row hof hblock' hstored rfl (congrArg DbText.bind hhash) hhash rfl rfl rfl
    · rcases List.mem_singleton.1 hlast with rfl
      rw [← Option.some.inj (hread'.symm.trans hy)]
      exact isInvalid_of_row hofCopy hblock' hstored rfl (congrArg DbText.bind hhash) hhash rfl rfl
        rfl
  have hview : ∀ x ∈ [r, r'], x.toPublicKey = .bind n.config.publicKey ∧
      x.fromPublicKey = .bind sender.publicKey := by
    intro x hx
    rcases List.mem_cons.1 hx with rfl | hlast
    · exact ⟨congrArg DbText.bind hto, congrArg DbText.bind hfrom⟩
    · rcases List.mem_singleton.1 hlast with rfl
      exact ⟨congrArg DbText.bind hto, congrArg DbText.bind hfrom⟩
  have hsent : MessageDB.selectChat n'.messages sender.publicKey n.config.publicKey = [] := by
    rw [MessageDB.selectChat, hdata, List.filter_eq_nil_iff]
    intro x hx hkey
    have hother : x.toPublicKey = .bind sender.publicKey := (of_decide_eq_true hkey).1
    exact hkeys ((hview x hx).1.symm.trans hother)
  have hreceived : ∀ x ∈ [r, r'],
      x ∈ MessageDB.selectChat n'.messages n.config.publicKey sender.publicKey := by
    intro x hx
    refine List.mem_filter.2 ⟨hdata.symm ▸ hx, decide_eq_true (hview x hx)⟩
  have hne : r ≠ r' := fun heq => hid (congrArg MessageRow.messageId heq)
  exact ⟨hblock', r, r', sig, sig', hne,
    trusted_of_all_valid hsent hvalid (hreceived r (by simp)) hread hhash,
    trusted_of_all_valid hsent hvalid (hreceived r' (by simp)) hread' hhash⟩

namespace SmallNet

/-- The text `hi` with the block that was made from it. -/
def captured : TextMessage := FirstBlock.message.setBlockHash FirstBlock.block.hash

def capturedJson : Json :=
  (captured.serialize testEnv FirstBlock.config.privateKey outside.draws).toOption.getD .null

/-- The block, the message, and the message under another id. -/
def replayRequests : List (Visit × Json) :=
  [(visit, FirstBlock.block.toJson), (visit, capturedJson),
    (visit, capturedJson.set "id" (.string "m9"))]

def replayed : Node :=
  TCPServer.serveAll testEnv (node FirstBlock.rivalConfig [] Table.empty) replayRequests

theorem serialize_captured :
    captured.serialize testEnv FirstBlock.config.privateKey outside.draws = .ok capturedJson := by
  rcases TextMessage.serialize_ok XORCrypto.signatureLaws XORCrypto.sessionLaws
    FirstBlock.keyPairMatches FirstBlock.rival_keyPairMatches (m := captured) rfl outside.draws with
    ⟨j, hj⟩
  rw [capturedJson, hj]
  rfl

/-- The node takes the block. -/
theorem serve_block_empty : (TCPServer.serve testEnv (node FirstBlock.rivalConfig [] Table.empty)
    visit FirstBlock.block.toJson).1 = node FirstBlock.rivalConfig [] FirstBlock.table := by
  have hacceptable : Acceptable testEnv visit.checked Table.empty FirstBlock.block :=
    ⟨FirstBlock.blockOf_block.authentic, by decide, Or.inl rfl,
      fun _ hc => absurd hc List.not_mem_nil⟩
  have hdecode : Block.ofJson FirstBlock.block.toJson = .ok FirstBlock.block :=
    Block.ofJson_toJson _
  rw [TCPServer.serve_block]
  rcases onIncomingBlock_cases FirstBlock.rivalConfig.me visit.checked visit.tick Table.empty
    hdecode with ⟨_, hrun⟩ | ⟨hrefused, _⟩
  · have hchain := congrArg Prod.snd hrun
    exact congrArg (fun chain => node FirstBlock.rivalConfig [] chain) hchain
  · exact absurd hacceptable hrefused

theorem replayed_trusted :
    FirstBlock.block ∈ ChainDB.loadAllBlocks replayed.chain ∧ ∃ r r' sig sig', r ≠ r' ∧
      Trusted testEnv replayed FirstBlock.block r { captured with signature := sig } ∧
      Trusted testEnv replayed FirstBlock.block r'
        { captured with id := "m9", signature := sig' } := by
  have hblock : FirstBlock.block ∈ ChainDB.loadAllBlocks FirstBlock.table := by
    rw [FirstBlock.loadAllBlocks_table]
    exact List.mem_singleton.2 rfl
  have hof : BlockOf testEnv captured Block.default FirstBlock.block :=
    { FirstBlock.blockOf_block with }
  have hkeys := bind_publicKey_ne XORCrypto.signatureLaws FirstBlock.rival_keyPairMatches
    FirstBlock.keyPairMatches (by decide +kernel)
  have hid : DbText.bind captured.id ≠ .bind "m9" := by decide
  have hcopy := resent_copy_trusted XORCrypto.signatureLaws XORCrypto.sessionLaws
    FirstBlock.keyPairMatches (n := node FirstBlock.rivalConfig [] FirstBlock.table)
    FirstBlock.rival_keyPairMatches rfl hof hblock rfl rfl rfl rfl hkeys serialize_captured hid
    visit visit
  rw [replayed, replayRequests, TCPServer.serveAll_cons, serve_block_empty]
  exact hcopy

theorem one_block_one_text_replayed :
    ∃ r r' m m', m.id = "m1" ∧ m'.id = "m9" ∧ Trusted testEnv replayed FirstBlock.block r m ∧
      Trusted testEnv replayed FirstBlock.block r' m' ∧ cBytes m.message = cBytes m'.message := by
  rcases replayed_trusted with ⟨hblock, r, r', sig, sig', _, h, h'⟩
  have hstart : Indexed (node FirstBlock.rivalConfig [] Table.empty).messages :=
    fun r hr => absurd hr List.not_mem_nil
  have hS : testEnv.CollisionFree {cBytes captured.message, cBytes captured.message} := by
    intro x hx y hy _
    simp only [Set.mem_insert_iff, Set.mem_singleton_iff, or_self] at hx hy
    rw [hx, hy]
  exact ⟨r, r', _, _, rfl, rfl, h, h',
    (one_block_one_text hstart replayRequests hblock h h' hS).2.2.1⟩

/-- One block, and two stored messages that the check trusts. -/
theorem two_trusted_for_one_block :
    FirstBlock.block ∈ ChainDB.loadAllBlocks replayed.chain ∧
      ¬ ∀ r r' m m', Trusted testEnv replayed FirstBlock.block r m →
        Trusted testEnv replayed FirstBlock.block r' m' → r = r' := by
  rcases replayed_trusted with ⟨hblock, r, r', sig, sig', hne, h, h'⟩
  exact ⟨hblock, fun hone => hne (hone r r' _ _ h h')⟩

end SmallNet

end Network
end DChat
