import DChat.Network

/-!
# Sending — what each part of a send does to every node

The parts of `sendSecretMessage` are described node by node: `deliver` touches the messages and
chat peers of the two ends, `storeAndBroadcastBlock` touches chains only, `rollback` takes rows
out of the two message tables.
-/

namespace DChat
namespace Network

open Utils Crypto Peer Messaging Blockchain Chat KeyedTable AtomicProg PartyMap

variable {E : Env}

theorem received_eq_some {j j' : Json} :
    received j = some j' ↔ j.dumpLen ≤ bufferSize - 1 ∧ j = j' := by
  by_cases h : j.dumpLen ≤ bufferSize - 1 <;> simp [received, h]

/-! ## Requests -/

namespace TCPServer

/-- A block is handed to `onIncomingBlock`. -/
theorem serve_block (n : Node) (visit : Visit) (block : Block) :
    serve E n visit block.toJson =
      ({ n with chain := ((BlockchainService.onIncomingBlock E n.config.me visit.checked visit.tick
          block.toJson).run ChainOp.exec n.chain).2 },
        some ((BlockchainService.onIncomingBlock E n.config.me visit.checked visit.tick
          block.toJson).run ChainOp.exec n.chain).1) := rfl

/-- A text message is stored and answered when it is decoded, and refused when not. -/
theorem serve_envelope (n : Node) (visit : Visit) {m : SecretMessage} {cipher signature : String}
    (htype : m.type = .textMessage) :
    (∃ m', TextMessage.ofJson E (TextMessage.envelope m cipher signature) n.config.privateKey false
        false = .ok m' ∧
      (serve E n visit (TextMessage.envelope m cipher signature)).1 =
        (ChatService.handleIncomingTextMessage n visit.tick m'
          (TextMessage.envelope m cipher signature)).1 ∧
      ∃ a, (serve E n visit (TextMessage.envelope m cipher signature)).2 = some a ∧
        ChatService.IsTextResponse a) ∨
    (∃ e, TextMessage.ofJson E (TextMessage.envelope m cipher signature) n.config.privateKey false
        false = .error e ∧
      (serve E n visit (TextMessage.envelope m cipher signature)).1 = n ∧
      ∀ a, (serve E n visit (TextMessage.envelope m cipher signature)).2 = some a →
        a.field "type" = .ok (.string MessageType.errorResponse.toString)) := by
  have htag : (TextMessage.envelope m cipher signature).field "type" =
      .ok (.string MessageType.textMessage.toString) := by
    rw [TextMessage.field_type_envelope, htype]
  -- an envelope has no block fields, so the server takes it for a message
  have hserve := serve_of_message (E := E) n visit
    (show ((TextMessage.envelope m cipher signature).contains "previousHash" &&
      (TextMessage.envelope m cipher signature).contains "payloadHash") = false from rfl)
  rw [hserve]
  rcases ChatService.handleIncomingMessage_text E n visit.tick htag with
    ⟨m', hdecode, hnode, a, hanswer, htext⟩ | ⟨e, hdecode, hnode, herror⟩
  · left
    exact ⟨m', hdecode, hnode, a, by simp [hanswer, Except.toOption], htext⟩
  · right
    refine ⟨e, hdecode, hnode, fun a ha => herror a ?_⟩
    rcases hresult : (ChatService.handleIncomingMessage E n visit.tick
      (TextMessage.envelope m cipher signature)).2 with e' | a'
    · simp [hresult, Except.toOption] at ha
    · simpa [hresult, Except.toOption] using ha

/-- The report of a block that was not stored removes the rows of the block. -/
theorem serve_error (n : Node) (visit : Visit) (message : BlockchainErrorMessageResponse)
    (htype : message.type = .blockchainErrorResponse) :
    (serve E n visit message.serialize).1 =
      { n with messages := (MessageDB.removeMessageByBlockHash n.messages
          message.blockHash).1 } := by
  have htag : message.serialize.field "type" =
      .ok (.string MessageType.blockchainErrorResponse.toString) := htype ▸ rfl
  have hdecode := BlockchainErrorMessageResponse.ofJson_serialize htype
  rw [serve_of_message n visit rfl]
  simp only [ChatService.handleIncomingMessage, ChatService.dispatchIncoming, htag, hdecode,
    MessageType.isString_toString, bind, Except.bind, pure, Except.pure]
  rfl

end TCPServer

namespace TCPClient

/-! ## The message -/

/-- With a block and a JSON in hand, the size decides. -/
theorem prepare_of_made {out : Outside} {sender : Node} {message : TextMessage} {block : Block}
    {jMessage : Json}
    (hsign : BlockchainService.signBlock E sender.config.privateKey out.blockSign
      (BlockchainService.unsignedBlock E message
        ((ChainDB.findTip sender.chain).getD Block.default)) = .ok block)
    (hjson : (message.setBlockHash block.hash).serialize E sender.config.privateKey out.draws =
      .ok jMessage) :
    prepare E out sender message = if jMessage.dumpLen > bufferSize then
      .error (.std "Message is too big") else .ok (block, jMessage) := by
  have hcreate : ((BlockchainService.createBlockFromMessage E sender.config.privateKey out.blockSign
      message).run ChainOp.exec sender.chain).1 = .ok block := hsign
  by_cases hbig : jMessage.dumpLen > bufferSize <;>
    simp [prepare, hcreate, hjson, hbig, bind, Except.bind, pure, Except.pure]

/-- What has to succeed before anything is sent. -/
theorem prepare_eq_ok {out : Outside} {sender : Node} {message : TextMessage} {block : Block}
    {jMessage : Json} :
    prepare E out sender message = .ok (block, jMessage) ↔
      BlockchainService.signBlock E sender.config.privateKey out.blockSign
          (BlockchainService.unsignedBlock E message
            ((ChainDB.findTip sender.chain).getD Block.default)) = .ok block ∧
        (message.setBlockHash block.hash).serialize E sender.config.privateKey out.draws =
          .ok jMessage ∧
        jMessage.dumpLen ≤ bufferSize := by
  have hcreate : ((BlockchainService.createBlockFromMessage E sender.config.privateKey out.blockSign
      message).run ChainOp.exec sender.chain).1 =
        BlockchainService.signBlock E sender.config.privateKey out.blockSign
          (BlockchainService.unsignedBlock E message
            ((ChainDB.findTip sender.chain).getD Block.default)) := rfl
  constructor
  · -- each of the three steps that may stop has to have gone on
    intro h
    rcases hsign : BlockchainService.signBlock E sender.config.privateKey out.blockSign
      (BlockchainService.unsignedBlock E message
        ((ChainDB.findTip sender.chain).getD Block.default)) with e | b
    · simp [prepare, hcreate, hsign, bind, Except.bind] at h
    rcases hjson : (message.setBlockHash b.hash).serialize E sender.config.privateKey out.draws with
      e | j
    · simp [prepare, hcreate, hsign, hjson, bind, Except.bind] at h
    rw [prepare_of_made hsign hjson] at h
    by_cases hbig : j.dumpLen > bufferSize
    · rw [if_pos hbig] at h
      cases h
    · rw [if_neg hbig] at h
      rcases h with ⟨⟩
      exact ⟨rfl, hjson, Nat.le_of_not_lt hbig⟩
  · rintro ⟨hsign, hjson, hsmall⟩
    rw [prepare_of_made hsign hjson, if_neg (Nat.not_lt.2 hsmall)]

/-- The row that both ends store for the message. -/
def storedRow (message : TextMessage) (block : Block) (jMessage : Json) : MessageRow :=
  .ofMessage (message.setBlockHash block.hash) jMessage block.hash

/-- The node gets the whole text and can decode it. -/
def Takes (E : Env) (n : Node) (jMessage : Json) : Prop :=
  jMessage.dumpLen ≤ bufferSize - 1 ∧
    ∃ m, TextMessage.ofJson E jMessage n.config.privateKey false false = .ok m

/-- Only messages and chat peers may differ. -/
def SameButMessages (n n' : Node) : Prop :=
  n' = { n with messages := n'.messages, chatPeers := n'.chatPeers }

theorem SameButMessages.trans {n n' n'' : Node} (h : SameButMessages n n')
    (h' : SameButMessages n' n'') : SameButMessages n n'' := by
  rw [SameButMessages] at *
  rw [h', h]

/-- What `deliver` does to a node: the sender stores the row, and so does a recipient that takes
the message, if the id is new to them. -/
structure Delivered (E : Env) (own recipient : UserHost) (jMessage : Json) (row : MessageRow)
    (h : UserHost) (n n' : Node) : Prop where
  same : SameButMessages n n'
  stores : h = own ∨ (h = recipient ∧ Takes E n jMessage) →
    n'.messages = (n.messages.insert row).1
  leaves : ¬ (h = own ∨ (h = recipient ∧ Takes E n jMessage)) → n'.messages = n.messages

section Deliver

variable {out : Outside} {own : UserHost} {message : TextMessage} {block : Block} {jMessage : Json}
  {sender : Node} (net : Nodes)

/-- A node that gets the whole text stores it and says so, or refuses it with an error. -/
theorem serve_text (htype : message.type = .textMessage)
    (hjson : (message.setBlockHash block.hash).serialize E sender.config.privateKey out.draws =
      .ok jMessage) (hlen : jMessage.dumpLen ≤ bufferSize - 1) (n : Node) (visit : Visit) :
    (Takes E n jMessage ∧ SameButMessages n (TCPServer.serve E n visit jMessage).1 ∧
      (TCPServer.serve E n visit jMessage).1.messages =
        (n.messages.insert (storedRow message block jMessage)).1 ∧
      ∃ a, (TCPServer.serve E n visit jMessage).2 = some a ∧ ChatService.IsTextResponse a) ∨
    (¬ Takes E n jMessage ∧ (TCPServer.serve E n visit jMessage).1 = n ∧
      ∀ a, (TCPServer.serve E n visit jMessage).2 = some a →
        a.field "type" = .ok (.string MessageType.errorResponse.toString)) := by
  rcases TextMessage.serialize_eq_ok hjson with ⟨key, cipher, priv, sig, _, _, _, _, rfl⟩
  rcases TCPServer.serve_envelope (E := E) n visit
    (m := (message.setBlockHash block.hash).toSecretMessage) htype with
    ⟨m', hdecode, hnode, hanswer⟩ | ⟨e, hdecode, hnode, herror⟩
  · left
    rcases TextMessage.fields_of_ofJson hdecode with ⟨hfields, hhash⟩
    rw [TextMessage.setBlockHash_toMessage] at hfields
    rw [TextMessage.setBlockHash_blockHash] at hhash
    -- the recipient's row is made from what it decoded, the sender's from the original
    have hrow : ∀ j, MessageRow.ofMessage m' j m'.blockHash = storedRow message block j := by
      intro j
      rw [storedRow, MessageRow.ofMessage, MessageRow.ofMessage, hhash,
        TextMessage.setBlockHash_toMessage, hfields]
    rw [hnode, ← hrow]
    exact ⟨⟨hlen, m', hdecode⟩, rfl, rfl, hanswer⟩
  · right
    refine ⟨?_, hnode, herror⟩
    rintro ⟨_, m', hdecode'⟩
    rw [hdecode] at hdecode'
    cases hdecode'

/-- What the connection to the recipient does to the nodes. -/
theorem request_text (htype : message.type = .textMessage)
    (hjson : (message.setBlockHash block.hash).serialize E sender.config.privateKey out.draws =
      .ok jMessage) (host : UserHost) (visit : Visit) :
    Moved (fun h n n' => SameButMessages n n' ∧
        (h = host ∧ Takes E n jMessage →
          n'.messages = (n.messages.insert (storedRow message block jMessage)).1) ∧
        (¬ (h = host ∧ Takes E n jMessage) → n' = n))
      net (request E net host visit jMessage).1 := by
  by_cases hlen : jMessage.dumpLen ≤ bufferSize - 1
  · simp only [request, received, hlen, if_true]
    apply Moved.modify
    · intro n _
      rcases serve_text htype hjson hlen n visit with
        ⟨htakes, hsame, hstored, _⟩ | ⟨hrefuses, hnode, _⟩
      · exact ⟨hsame, fun _ => hstored, fun hno => absurd ⟨rfl, htakes⟩ hno⟩
      · exact ⟨by rw [hnode, SameButMessages], fun h => absurd h.2 hrefuses, fun _ => hnode⟩
    · intro h n hne
      exact ⟨rfl, fun hself => absurd hself.1 hne, fun _ => rfl⟩
  · -- the text arrives without its end
    simp only [request, received, hlen, if_false]
    exact Moved.refl (fun h n => ⟨rfl, fun htakes => absurd htakes.2.1 hlen, fun _ => rfl⟩) net

/-- The recipient confirms exactly what it takes. -/
theorem answer_text (htype : message.type = .textMessage)
    (hjson : (message.setBlockHash block.hash).serialize E sender.config.privateKey out.draws =
      .ok jMessage) (host : UserHost) (visit : Visit) :
    (∃ a, (request E net host visit jMessage).2 = some a ∧ ChatService.IsTextResponse a) ↔
      ∃ r, net host = some r ∧ Takes E r jMessage := by
  by_cases hlen : jMessage.dumpLen ≤ bufferSize - 1
  · simp only [request, received, hlen, if_true]
    cases net host with
    | none => simp
    | some r =>
        rcases serve_text htype hjson hlen r visit with
          ⟨htakes, _, _, hanswer⟩ | ⟨hrefuses, _, herror⟩
        · exact ⟨fun _ => ⟨r, rfl, htakes⟩, fun _ => hanswer⟩
        · constructor
          · rintro ⟨a, hanswer, htext⟩
            -- one answer cannot carry both tags
            have htags := htext.symm.trans (herror a hanswer)
            simp at htags
          · rintro ⟨r', hr', htakes⟩
            cases hr'
            exact absurd htakes hrefuses
  · simp only [request, received, hlen, if_false]
    constructor
    · rintro ⟨a, hanswer, _⟩
      cases hanswer
    · rintro ⟨r, _, htakes⟩
      exact absurd htakes.1 hlen

/-- Whatever comes back, the sender learns nothing from it. -/
theorem handleOutgoing_answer (htype : message.type = .textMessage)
    (hjson : (message.setBlockHash block.hash).serialize E sender.config.privateKey out.draws =
      .ok jMessage) (host : UserHost) (visit : Visit) (n : Node) :
    ChatService.handleOutgoingMessage n ((request E net host visit jMessage).2.bind received) =
      n := by
  cases hanswer : (request E net host visit jMessage).2.bind received with
  | none => rfl
  | some a =>
      -- response or error, the client keeps its state
      apply ChatService.handleOutgoingMessage_text
      rcases Option.bind_eq_some_iff.1 hanswer with ⟨a', ha', hreceived⟩
      rcases (received_eq_some.1 hreceived).2 with rfl
      by_cases hlen : jMessage.dumpLen ≤ bufferSize - 1
      · simp only [request, received, hlen, if_true] at ha'
        rcases Option.bind_eq_some_iff.1 ha' with ⟨r, _, hserve⟩
        rcases serve_text htype hjson hlen r visit with
          ⟨_, _, _, b, hb, htext⟩ | ⟨_, _, herror⟩
        · rcases Option.some.inj (hb.symm.trans hserve) with rfl
          exact Or.inl htext
        · exact Or.inr (herror a' hserve)
      · simp [request, received, hlen] at ha'

/-- So what the sender does next does not depend on the answer. -/
theorem deliver_eq (htype : message.type = .textMessage)
    (hjson : (message.setBlockHash block.hash).serialize E sender.config.privateKey out.draws =
      .ok jMessage) :
    deliver E out own message block jMessage net =
      (modify own (fun n => { n with
          messages := (n.messages.insert (storedRow message block jMessage)).1
          chatPeers := PeerDB.addPeer n.chatPeers message.toPeer })
        (request E net message.toPeer.toUserHost out.textVisit jMessage).1,
        (request E net message.toPeer.toUserHost out.textVisit jMessage).2) := by
  simp only [deliver, handleOutgoing_answer net htype hjson]
  rfl

/-- What `deliver` does to every node. -/
theorem deliver_moved (own : UserHost) (net : Nodes) (htype : message.type = .textMessage)
    (hjson : (message.setBlockHash block.hash).serialize E sender.config.privateKey out.draws =
      .ok jMessage) :
    Moved (Delivered E own message.toPeer.toUserHost jMessage (storedRow message block jMessage))
      net (deliver E out own message block jMessage net).1 := by
  have hrequest := request_text net htype hjson message.toPeer.toUserHost out.textVisit
  have hown : Moved (fun h n n' => SameButMessages n n' ∧
      (h = own → n'.messages = (n.messages.insert (storedRow message block jMessage)).1) ∧
      (h ≠ own → n' = n))
      (request E net message.toPeer.toUserHost out.textVisit jMessage).1
      (deliver E out own message block jMessage net).1 := by
    rw [deliver_eq net htype hjson]
    apply Moved.modify
    · intro n _
      exact ⟨rfl, fun _ => rfl, fun hne => absurd rfl hne⟩
    · intro h n hne
      exact ⟨rfl, fun heq => absurd heq hne, fun _ => rfl⟩
  refine hrequest.trans ?_ hown
  rintro h n n' n'' ⟨hsame, hstored, hleft⟩ ⟨hsame', hinsert, hother⟩
  refine ⟨hsame.trans hsame', ?_, ?_⟩
  · intro hstores
    by_cases htakes : h = message.toPeer.toUserHost ∧ Takes E n jMessage
    · by_cases hself : h = own
      · -- a node that sends to itself meets its own row
        rw [hinsert hself, hstored htakes, Table.insert_insert]
      · rw [hother hself, hstored htakes]
    · have hself : h = own := hstores.resolve_right htakes
      rw [hinsert hself, hleft htakes]
  · intro hno
    have hself : h ≠ own := fun heq => hno (Or.inl heq)
    rw [hother hself, hleft fun htakes => hno (Or.inr htakes)]

end Deliver

/-! ## The block -/

/-- What offering a block to some addresses does to a node: its chain may grow, the chain of one
that was reached has the block, and nobody else changes. -/
structure Offered (E : Env) (block : Block) (reached : List UserHost) (h : UserHost)
    (n n' : Node) : Prop where
  same : n' = { n with chain := n'.chain }
  grows : n.chain.data <+: n'.chain.data
  takes : h ∈ reached → BlockchainService.ValidBlocks E (ChainDB.loadAllBlocks n.chain) →
    BlockRow.ofBlock block ∈ n'.chain.data
  leaves : h ∉ reached → n' = n

namespace Offered

variable {block : Block} {a b : List UserHost} {h : UserHost} {n n' n'' : Node}

theorem refl (block : Block) (h : UserHost) (n : Node) : Offered E block [] h n n where
  same := rfl
  grows := List.prefix_rfl
  takes hmem := absurd hmem (by simp)
  leaves _ := rfl

theorem trans (h₁ : Offered E block a h n n') (h₂ : Offered E block b h n' n'') :
    Offered E block (a ++ b) h n n'' where
  same := by rw [h₂.same, h₁.same]
  grows := h₁.grows.trans h₂.grows
  takes hmem hvalid := by
    -- a node reached for the first time still has the chain it started with
    by_cases ha : h ∈ a
    · exact h₂.grows.subset (h₁.takes ha hvalid)
    · have hsame := h₁.leaves ha
      rw [← hsame] at hvalid
      exact h₂.takes ((List.mem_append.1 hmem).resolve_left ha) hvalid
  leaves hno := by
    rw [List.mem_append, not_or] at hno
    rw [h₂.leaves hno.2, h₁.leaves hno.1]

end Offered

/-- A stored block is in the table. -/
theorem ofBlock_mem_of_insertBlock {t : BlockTable} {block : Block}
    (h : (ChainDB.insertBlock t block).2 = true) :
    BlockRow.ofBlock block ∈ (ChainDB.insertBlock t block).1.data := by
  have hfresh := ChainDB.fresh_iff.2 (ChainDB.insertBlock_eq_true.1 h).2
  have hno : ¬ (block.previousHash ≠ "0" ∧ ChainDB.selectChild t block.previousHash) := by
    intro hchild
    simp [ChainDB.insertBlock, hchild] at h
  rw [ChainDB.insertBlock, if_neg hno, ChainDB.insertRow, Table.data_insert_of_fresh hfresh]
  simp

/-- An insertion at one address offers the block to that address alone. -/
theorem Offered.insert {block : Block} {host : UserHost} {net : Nodes} {f : Node → Node}
    (hf : ∀ n, net host = some n →
      f n = { n with chain := (ChainDB.insertBlock n.chain block).1 })
    (hstored : ∀ n, net host = some n →
      BlockchainService.ValidBlocks E (ChainDB.loadAllBlocks n.chain) →
      (ChainDB.insertBlock n.chain block).2 = true) :
    Moved (Offered E block [host]) net (modify host f net) := by
  apply Moved.modify
  · intro n hn
    rw [hf n hn]
    exact ⟨rfl, ChainDB.data_prefix_insertBlock _ _,
      fun _ hvalid => ofBlock_mem_of_insertBlock (hstored n hn hvalid),
      fun hno => absurd (List.mem_singleton.2 rfl) hno⟩
  · intro h n hne
    exact ⟨rfl, List.prefix_rfl, fun hmem => absurd (List.mem_singleton.1 hmem) hne,
      fun _ => rfl⟩

/-- A peer says yes exactly when the whole block arrives and is acceptable, and then it was
inserted. -/
theorem sendCallback_cases (out : Outside) (block : Block) (peer : UserPeer) {net : Nodes}
    {n : Node} (hn : net peer.toUserHost = some n) :
    ((block.toJson.dumpLen ≤ bufferSize - 1 ∧
        BlockchainService.Acceptable E (out.blockVisit peer).checked n.chain block) ∧
      sendCallback E out block.toJson peer net = (.ok true, modify peer.toUserHost
        (fun n => { n with chain := (ChainDB.insertBlock n.chain block).1 }) net)) ∨
    (¬ (block.toJson.dumpLen ≤ bufferSize - 1 ∧
        BlockchainService.Acceptable E (out.blockVisit peer).checked n.chain block) ∧
      sendCallback E out block.toJson peer net = (.ok false, net)) := by
  by_cases hlen : block.toJson.dumpLen ≤ bufferSize - 1
  · rcases BlockchainService.onIncomingBlock_cases (E := E) n.config.me
      (out.blockVisit peer).checked (out.blockVisit peer).tick n.chain
      (Block.ofJson_toJson block) with
      ⟨hacc, hrun⟩ | ⟨hrefused, error, hash, hrun⟩
    · left
      refine ⟨⟨hlen, hacc⟩, ?_⟩
      have hserve : TCPServer.serve E n (out.blockVisit peer) block.toJson =
          ({ n with chain := (ChainDB.insertBlock n.chain block).1 }, some (.object [])) := by
        rw [TCPServer.serve_block, hrun]
      have hnet : modify peer.toUserHost
          (fun n => (TCPServer.serve E n (out.blockVisit peer) block.toJson).1) net =
            modify peer.toUserHost
              (fun n => { n with chain := (ChainDB.insertBlock n.chain block).1 }) net := by
        apply modify_congr
        intro s hs
        rcases Option.some.inj (hn.symm.trans hs) with rfl
        rw [hserve]
      simp only [sendCallback, hn, request, received, hlen, if_true, hnet, Option.bind_some, hserve]
      rfl
    · right
      refine ⟨fun h => hrefused h.2, ?_⟩
      have hserve : TCPServer.serve E n (out.blockVisit peer) block.toJson =
          (n, some (BlockchainService.refusal n.config.me (out.blockVisit peer).tick error
            hash)) := by
        rw [TCPServer.serve_block, hrun]
      have hnet : modify peer.toUserHost
          (fun n => (TCPServer.serve E n (out.blockVisit peer) block.toJson).1) net = net := by
        apply modify_eq_self
        intro s hs
        rcases Option.some.inj (hn.symm.trans hs) with rfl
        rw [hserve]
      simp only [sendCallback, hn, request, hlen, if_true, hnet, Option.bind_some, hserve, received]
      -- the refusal is one whether its text arrives whole or not
      split
      · rfl
      · rename_i jResponse hresponse
        split at hresponse
        · rcases Option.some.inj hresponse with rfl
          rfl
        · cases hresponse
  · right
    refine ⟨fun h => hlen h.1, ?_⟩
    simp only [sendCallback, hn, request, received, hlen, if_false]
    rfl

/-- The peers took the block one after the other; the second network is the one after them all. -/
inductive TakenBy (E : Env) (out : Outside) (block : Block) : List UserPeer → Nodes → Nodes → Prop
  | nil (net : Nodes) : TakenBy E out block [] net net
  | cons {peer : UserPeer} {peers : List UserPeer} {net net' net'' : Nodes} :
      sendCallback E out block.toJson peer net = (.ok true, net') →
        TakenBy E out block peers net' net'' → TakenBy E out block (peer :: peers) net net''

/-- Why the block was not stored: the next peer in the list refused it, or there was none left and
the own chain did not take it. -/
inductive Stopped (E : Env) (out : Outside) (own : UserHost) (block : Block) (net : Nodes) :
    List UserPeer → Prop
  | refused {peer : UserPeer} (peers : List UserPeer) :
      sendCallback E out block.toJson peer net = (.ok false, net) →
        Stopped E out own block net (peer :: peers)
  | notInserted {n : Node} : net own = some n → (ChainDB.insertBlock n.chain block).2 = false →
      Stopped E out own block net []

/-- The loop over the peers: those before the first refusal were reached. -/
theorem broadcast_spec (out : Outside) (block : Block) (peers : List UserPeer) (net : Nodes) :
    ∃ reached rest offered, peers = reached ++ rest ∧ TakenBy E out block reached net offered ∧
      BlockchainService.broadcast (sendCallback E out block.toJson) peers net =
        (rest.isEmpty, offered) ∧
      (∀ peer ∈ rest.head?, sendCallback E out block.toJson peer offered = (.ok false, offered)) ∧
      Moved (Offered E block (reached.map UserPeer.toUserHost)) net offered := by
  induction peers generalizing net with
  | nil =>
      refine ⟨[], [], net, rfl, .nil net, rfl, ?_, ?_⟩
      · intro peer hpeer
        cases hpeer
      · exact Moved.refl (Offered.refl block) net
  | cons peer peers ih =>
      cases hn : net peer.toUserHost with
      | none =>
          -- nobody listens: `sendCallback` goes on as after a success
          have hcall : sendCallback E out block.toJson peer net = (.ok true, net) := by
            simp [sendCallback, hn]
          rcases ih net with ⟨reached, rest, offered, rfl, htaken, hloop, hrefuses, hmoved⟩
          refine ⟨peer :: reached, rest, offered, rfl, .cons hcall htaken, ?_, hrefuses, ?_⟩
          · rw [BlockchainService.broadcast, hcall]
            exact hloop
          · apply hmoved.mono
            intro h n n' hh hoffer
            have hne : h ≠ peer.toUserHost := by
              rintro rfl
              rw [hn] at hh
              cases hh
            refine ⟨hoffer.same, hoffer.grows, ?_, ?_⟩
            · intro hmem
              exact hoffer.takes ((List.mem_cons.1 hmem).resolve_left hne)
            · intro hmem
              exact hoffer.leaves fun h' => hmem (List.mem_cons_of_mem _ h')
      | some n =>
          rcases sendCallback_cases (E := E) out block peer hn with
            ⟨⟨_, hacc⟩, hcall⟩ | ⟨_, hcall⟩
          · -- the peer takes the block, and the rest of the list meets the network after it
            rcases ih (modify peer.toUserHost
              (fun n => { n with chain := (ChainDB.insertBlock n.chain block).1 }) net) with
              ⟨reached, rest, offered, rfl, htaken, hloop, hrefuses, hmoved⟩
            refine ⟨peer :: reached, rest, offered, rfl, .cons hcall htaken, ?_, hrefuses, ?_⟩
            · rw [BlockchainService.broadcast, hcall]
              exact hloop
            · have hstep : Moved (Offered E block [peer.toUserHost]) net (modify peer.toUserHost
                  (fun n => { n with chain := (ChainDB.insertBlock n.chain block).1 }) net) := by
                apply Offered.insert
                · intro s _
                  rfl
                · intro s hs hvalid
                  rcases Option.some.inj (hn.symm.trans hs) with rfl
                  exact hacc.insertBlock hvalid
              exact hstep.trans (fun h n n' n'' h₁ h₂ => h₁.trans h₂) hmoved
          · -- the peer refuses it, and the loop stops in front of this peer
            refine ⟨[], peer :: peers, net, rfl, .nil net, ?_, ?_, ?_⟩
            · rw [BlockchainService.broadcast, hcall]
              rfl
            · intro peer' hpeer'
              rcases Option.some.inj hpeer' with rfl
              exact hcall
            · exact Moved.refl (Offered.refl block) net

/-- Storing and broadcasting: the sender is one of those that have the block if and only if it
answers true, and then all its peers were reached. -/
theorem storeAndBroadcastBlock_spec (out : Outside) {own : UserHost} (block : Block) {net : Nodes}
    {sender : Node} (hown : net own = some sender) :
    ∃ reached rest offered, sender.peers = reached ++ rest ∧
      TakenBy E out block reached net offered ∧
      ((storeAndBroadcastBlock E out own block net).1 = true → rest = [] ∧
        Moved (Offered E block (reached.map UserPeer.toUserHost ++ [own])) net
          (storeAndBroadcastBlock E out own block net).2) ∧
      ((storeAndBroadcastBlock E out own block net).1 = false →
        Stopped E out own block offered rest ∧
        Moved (Offered E block (reached.map UserPeer.toUserHost)) net
          (storeAndBroadcastBlock E out own block net).2) := by
  rcases broadcast_spec (E := E) out block sender.peers net with
    ⟨reached, rest, offered, hpeers, htaken, hloop, hrefuses, hmoved⟩
  refine ⟨reached, rest, offered, hpeers, htaken, ?_⟩
  rcases hmoved.of_some hown with ⟨n, hn, hoffer⟩
  have hstep : storeAndBroadcastBlock E out own block net =
      (((BlockchainService.storeBlock rest.isEmpty block).run ChainOp.exec n.chain).1,
        modify own (fun n' => { n' with chain :=
          ((BlockchainService.storeBlock rest.isEmpty block).run ChainOp.exec n.chain).2 })
            offered) := by
    simp only [storeAndBroadcastBlock, hown, Option.map_some, Option.getD_some, hloop, hn]
  rw [hstep]
  -- without the insertion the own node stays as the broadcast left it
  have hkept : ∀ chain, chain = n.chain →
      modify own (fun n' => { n' with chain }) offered = offered := by
    rintro _ rfl
    apply modify_eq_self
    intro n' hn'
    rw [Option.some.inj (hn.symm.trans hn')]
  cases rest with
  | cons peer peers =>
      have hrun : (BlockchainService.storeBlock false block).run ChainOp.exec n.chain =
          (false, n.chain) := rfl
      rw [List.isEmpty_cons, hrun]
      refine ⟨fun hstored => absurd hstored (by simp), fun _ => ⟨?_, ?_⟩⟩
      · exact .refused peers (hrefuses peer rfl)
      · rw [hkept _ rfl]
        exact hmoved
  | nil =>
      have hrun : (BlockchainService.storeBlock true block).run ChainOp.exec n.chain =
          ((ChainDB.insertBlock n.chain block).2, (ChainDB.insertBlock n.chain block).1) := rfl
      rw [List.isEmpty_nil, hrun]
      refine ⟨fun hstored => ⟨rfl, ?_⟩, fun hrefused => ⟨.notInserted hn hrefused, ?_⟩⟩
      · have hinsert : Moved (Offered E block [own]) offered
            (modify own (fun n' => { n' with chain := (ChainDB.insertBlock n.chain block).1 })
              offered) := by
          apply Offered.insert
          · intro n' hn'
            rcases Option.some.inj (hn.symm.trans hn') with rfl
            rfl
          · intro n' hn' _
            rcases Option.some.inj (hn.symm.trans hn') with rfl
            exact hstored
        exact hmoved.trans (fun h n n' n'' h₁ h₂ => h₁.trans h₂) hinsert
      · rw [hkept _ (ChainDB.insertBlock_of_false hrefused)]
        exact hmoved

/-! ## The rollback -/

/-- The rows of other blocks. -/
def othersRows (t : MessageTable) (blockHash : String) : List MessageRow :=
  t.data.filter fun r => !decide (r.blockHash = .bind blockHash)

/-- What the removal of a block's rows at some address does to a node. -/
structure RolledBack (host : UserHost) (blockHash : String) (h : UserHost) (n n' : Node) :
    Prop where
  same : n' = { n with messages := n'.messages }
  removes : h = host → n'.messages.data = othersRows n.messages blockHash
  leaves : h ≠ host → n' = n

theorem RolledBack.of_modify {host : UserHost} {blockHash : String} {f : Node → Node} (net : Nodes)
    (hf : ∀ n, f n = { n with
      messages := (MessageDB.removeMessageByBlockHash n.messages blockHash).1 }) :
    Moved (RolledBack host blockHash) net (modify host f net) := by
  apply Moved.modify
  · intro n _
    rw [hf]
    exact ⟨rfl, fun _ => MessageDB.data_removeMessageByBlockHash _ _, fun hne => absurd rfl hne⟩
  · intro h n hne
    exact ⟨rfl, fun heq => absurd heq hne, fun _ => rfl⟩

/-- The sender removes its row at once. -/
theorem rollback_moved (own : UserHost) (message : TextMessage) (block : Block) (net : Nodes) :
    Moved (RolledBack own block.hash) net (rollback own message block net) :=
  RolledBack.of_modify net fun _ => rfl

/-- And the recipient on the error report, if that arrives whole. -/
theorem deliverReport_moved (out : Outside) (message : TextMessage) (block : Block) (net : Nodes)
    (hwhole : (errorMessage out message block).serialize.dumpLen ≤ bufferSize - 1) :
    Moved (RolledBack message.toPeer.toUserHost block.hash) net
      (deliverReport E out message block net) := by
  simp only [deliverReport, request, received, hwhole, if_true]
  exact RolledBack.of_modify net fun n => TCPServer.serve_error n out.errorVisit _ rfl

/-! ## The whole send -/

section Ends

variable {out : Outside} {own : UserHost} {message : TextMessage} {net : Nodes} {sender r : Node}
  {block : Block} {jMessage : Json} {answer : Option Json}

theorem sendSecretMessage_stored (hown : net own = some sender)
    (hprepare : prepare E out sender message = .ok (block, jMessage))
    (hto : net message.toPeer.toUserHost = some r)
    (hstored : (storeAndBroadcastBlock E out own block
      (deliver E out own message block jMessage net).1).1 = true) :
    (sendSecretMessage E out own message net).1 = (storeAndBroadcastBlock E out own block
        (deliver E out own message block jMessage net).1).2 ∧
      (sendSecretMessage E out own message net).2 =
        .stored block (deliver E out own message block jMessage net).2 := by
  rcases hstore : storeAndBroadcastBlock E out own block
    (deliver E out own message block jMessage net).1 with ⟨stored, net'⟩
  rw [hstore] at hstored
  rcases hstored with rfl
  simp only [sendSecretMessage, hown, hprepare, hto, hstore, and_self]

theorem sendSecretMessage_rolledBack (hown : net own = some sender)
    (hprepare : prepare E out sender message = .ok (block, jMessage))
    (hto : net message.toPeer.toUserHost = some r)
    (hrefused : (storeAndBroadcastBlock E out own block
      (deliver E out own message block jMessage net).1).1 = false) :
    (sendSecretMessage E out own message net).1 = rollback own message block
        (storeAndBroadcastBlock E out own block
          (deliver E out own message block jMessage net).1).2 ∧
      (sendSecretMessage E out own message net).2 =
        .rolledBack block (deliver E out own message block jMessage net).2 := by
  rcases hstore : storeAndBroadcastBlock E out own block
    (deliver E out own message block jMessage net).1 with ⟨stored, net'⟩
  rw [hstore] at hrefused
  rcases hrefused with rfl
  simp only [sendSecretMessage, hown, hprepare, hto, hstore, and_self]

/-- The ways a send ends: before anything was sent, or as the store and broadcast of the block
decided. -/
theorem sendSecretMessage_cases (out : Outside) (own : UserHost) (message : TextMessage)
    (net : Nodes) :
    ((sendSecretMessage E out own message net).1 = net ∧
      ((sendSecretMessage E out own message net).2 = .unreachable ∨
        ∃ e, (sendSecretMessage E out own message net).2 = .thrown e)) ∨
    ∃ sender block jMessage, net own = some sender ∧
      prepare E out sender message = .ok (block, jMessage) ∧
      (((storeAndBroadcastBlock E out own block
            (deliver E out own message block jMessage net).1).1 = true ∧
          (sendSecretMessage E out own message net).1 = (storeAndBroadcastBlock E out own block
            (deliver E out own message block jMessage net).1).2 ∧
          (sendSecretMessage E out own message net).2 =
            .stored block (deliver E out own message block jMessage net).2) ∨
        ((storeAndBroadcastBlock E out own block
            (deliver E out own message block jMessage net).1).1 = false ∧
          (sendSecretMessage E out own message net).1 = rollback own message block
            (storeAndBroadcastBlock E out own block
              (deliver E out own message block jMessage net).1).2 ∧
          (sendSecretMessage E out own message net).2 =
            .rolledBack block (deliver E out own message block jMessage net).2)) := by
  -- the cases follow the early returns of the source
  cases hown : net own with
  | none => exact Or.inl (by simp [sendSecretMessage, hown])
  | some sender =>
      cases hprepare : prepare E out sender message with
      | error e => exact Or.inl (by simp [sendSecretMessage, hown, hprepare])
      | ok made =>
          cases hto : net message.toPeer.toUserHost with
          | none => exact Or.inl (by simp [sendSecretMessage, hown, hprepare, hto])
          | some r =>
              right
              refine ⟨sender, made.1, made.2, rfl, hprepare, ?_⟩
              cases hstore : (storeAndBroadcastBlock E out own made.1
                (deliver E out own message made.1 made.2 net).1).1 with
              | true => exact Or.inl ⟨rfl, sendSecretMessage_stored hown hprepare hto hstore⟩
              | false => exact Or.inr ⟨rfl, sendSecretMessage_rolledBack hown hprepare hto hstore⟩

end Ends

/-- What a send does to a node before any rollback: the two ends store the row, and the chains of
the nodes that were reached have the block. -/
structure Sent (E : Env) (own recipient : UserHost) (jMessage : Json) (row : MessageRow)
    (block : Block) (reached : List UserHost) (h : UserHost) (n n' : Node) : Prop where
  same : n' = { n with messages := n'.messages, chatPeers := n'.chatPeers, chain := n'.chain }
  stores : h = own ∨ (h = recipient ∧ Takes E n jMessage) →
    n'.messages = (n.messages.insert row).1
  leaves : ¬ (h = own ∨ (h = recipient ∧ Takes E n jMessage)) → n'.messages = n.messages
  grows : n.chain.data <+: n'.chain.data
  takes : h ∈ reached → BlockchainService.ValidBlocks E (ChainDB.loadAllBlocks n.chain) →
    BlockRow.ofBlock block ∈ n'.chain.data
  keeps : h ∉ reached → n'.chain = n.chain

theorem Sent.of_delivered {own recipient : UserHost} {jMessage : Json} {row : MessageRow}
    {block : Block} {reached : List UserHost} {h : UserHost} {n n' n'' : Node}
    (h₁ : Delivered E own recipient jMessage row h n n') (h₂ : Offered E block reached h n' n'') :
    Sent E own recipient jMessage row block reached h n n'' := by
  have hchain : n'.chain = n.chain := by rw [h₁.same]
  have hmessages : n''.messages = n'.messages := by rw [h₂.same]
  refine ⟨?_, ?_, ?_, hchain ▸ h₂.grows, ?_, ?_⟩
  · rw [h₂.same, h₁.same]
  · intro hstores
    rw [hmessages, h₁.stores hstores]
  · intro hno
    rw [hmessages, h₁.leaves hno]
  · intro hmem hvalid
    exact h₂.takes hmem (hchain.symm ▸ hvalid)
  · intro hno
    rw [h₂.leaves hno, hchain]

section Ends

variable {out : Outside} {own : UserHost} {message : TextMessage} {net : Nodes} {block : Block}
  {answer : Option Json}

/-- The delivery and the broadcast together, up to the answer of `storeAndBroadcastBlock`. -/
theorem sent_spec {sender : Node} {jMessage : Json} (htype : message.type = .textMessage)
    (hown : net own = some sender)
    (hprepare : prepare E out sender message = .ok (block, jMessage)) :
    ∃ reached rest offered, sender.peers = reached ++ rest ∧
      TakenBy E out block reached (deliver E out own message block jMessage net).1 offered ∧
      ((storeAndBroadcastBlock E out own block
          (deliver E out own message block jMessage net).1).1 = true → rest = [] ∧
        Moved (Sent E own message.toPeer.toUserHost jMessage (storedRow message block jMessage)
          block (reached.map UserPeer.toUserHost ++ [own])) net
          (storeAndBroadcastBlock E out own block
            (deliver E out own message block jMessage net).1).2) ∧
      ((storeAndBroadcastBlock E out own block
          (deliver E out own message block jMessage net).1).1 = false →
        Stopped E out own block offered rest ∧
        Moved (Sent E own message.toPeer.toUserHost jMessage (storedRow message block jMessage)
          block (reached.map UserPeer.toUserHost)) net
          (storeAndBroadcastBlock E out own block
            (deliver E out own message block jMessage net).1).2) := by
  rcases prepare_eq_ok.1 hprepare with ⟨_, hjson, _⟩
  have hdeliver := deliver_moved own net htype hjson
  rcases hdeliver.of_some hown with ⟨sender', hsender', hdelivered⟩
  -- the broadcast goes to the peers the sender has after the delivery, which are the same
  have hpeers : sender'.peers = sender.peers := by rw [hdelivered.same]
  rcases storeAndBroadcastBlock_spec (E := E) out block hsender' with
    ⟨reached, rest, offered, hsplit, htaken, hstored, hrefused⟩
  refine ⟨reached, rest, offered, hpeers ▸ hsplit, htaken, ?_, ?_⟩
  · intro htrue
    rcases hstored htrue with ⟨hrest, hoffer⟩
    refine ⟨hrest, hdeliver.trans ?_ hoffer⟩
    intro h n n' n'' h₁ h₂
    exact Sent.of_delivered h₁ h₂
  · intro hfalse
    rcases hrefused hfalse with ⟨hstopped, hoffer⟩
    refine ⟨hstopped, hdeliver.trans ?_ hoffer⟩
    intro h n n' n'' h₁ h₂
    exact Sent.of_delivered h₁ h₂

/-- After a send that ends with the block stored. -/
theorem stored_spec (htype : message.type = .textMessage)
    (hend : (sendSecretMessage E out own message net).2 = .stored block answer) :
    ∃ sender jMessage, net own = some sender ∧
      prepare E out sender message = .ok (block, jMessage) ∧
      ((∃ a, answer = some a ∧ ChatService.IsTextResponse a) ↔
        ∃ r, net message.toPeer.toUserHost = some r ∧ Takes E r jMessage) ∧
      Moved (Sent E own message.toPeer.toUserHost jMessage (storedRow message block jMessage) block
        (sender.peers.map UserPeer.toUserHost ++ [own])) net
        (sendSecretMessage E out own message net).1 := by
  rcases sendSecretMessage_cases (E := E) out own message net with
    ⟨_, hother | ⟨e, hother⟩⟩ | ⟨sender, block', jMessage, hown, hprepare,
      ⟨htrue, hnet, hother⟩ | ⟨_, _, hother⟩⟩
  · -- only one way of ending leaves the block stored
    cases hend.symm.trans hother
  · cases hend.symm.trans hother
  · rcases Outcome.stored.inj (hend.symm.trans hother) with ⟨rfl, hanswer⟩
    rcases sent_spec htype hown hprepare with ⟨reached, rest, _, hsplit, _, hstored, _⟩
    rcases hstored htrue with ⟨rfl, hsent⟩
    rw [List.append_nil] at hsplit
    refine ⟨sender, jMessage, hown, hprepare, ?_, ?_⟩
    · rcases prepare_eq_ok.1 hprepare with ⟨_, hjson, _⟩
      rw [hanswer, deliver_eq net htype hjson]
      exact answer_text net htype hjson _ _
    · rw [hnet, hsplit]
      exact hsent
  · cases hend.symm.trans hother

/-- Before the rollback of a send that ends with one. -/
theorem rolledBack_spec (htype : message.type = .textMessage)
    (hend : (sendSecretMessage E out own message net).2 = .rolledBack block answer) :
    ∃ sender jMessage reached rest offered mid, net own = some sender ∧
      prepare E out sender message = .ok (block, jMessage) ∧ sender.peers = reached ++ rest ∧
      TakenBy E out block reached (deliver E out own message block jMessage net).1 offered ∧
      Stopped E out own block offered rest ∧
      Moved (Sent E own message.toPeer.toUserHost jMessage (storedRow message block jMessage) block
        (reached.map UserPeer.toUserHost)) net mid ∧
      (sendSecretMessage E out own message net).1 = rollback own message block mid := by
  rcases sendSecretMessage_cases (E := E) out own message net with
    ⟨_, hother | ⟨e, hother⟩⟩ | ⟨sender, block', jMessage, hown, hprepare,
      ⟨_, _, hother⟩ | ⟨hfalse, hnet, hother⟩⟩
  · cases hend.symm.trans hother
  · cases hend.symm.trans hother
  · cases hend.symm.trans hother
  · rcases Outcome.rolledBack.inj (hend.symm.trans hother) with ⟨rfl, _⟩
    rcases sent_spec htype hown hprepare with
      ⟨reached, rest, offered, hsplit, htaken, _, hrefused⟩
    rcases hrefused hfalse with ⟨hstopped, hsent⟩
    exact ⟨sender, jMessage, reached, rest, offered, _, hown, hprepare, hsplit, htaken, hstopped,
      hsent, hnet⟩

end Ends

end TCPClient

end Network
end DChat
