import DChat.MessageService
import DChat.Config

/-!
# ChatService — a node and what it does with a message

A `Node` is the state of one running program.  Each `handleIncoming…` answers one kind of
request, each `handleOutgoing…` takes in the answer to a request of this node.
`handleIncomingMessage` and `handleOutgoingMessage` choose by the type tag.

The texts that are printed are left out.
-/

namespace DChat
namespace Chat

open Utils Crypto Peer Messaging Blockchain

/-- The state of one program: its configuration, the peers and blocks held in memory, the values
of `GlobalState`, and the three tables. -/
structure Node where
  config : Config
  peers : List UserPeer
  newBlocks : List Block
  peersToReceive : UInt32
  missingBlocksCount : UInt32
  chatPeers : PeerTable
  messages : MessageTable
  chain : BlockTable

namespace ChatService

variable (E : Env)

/-! ## Errors -/

/-- `handleIncomingErrorMessage`; the sender of a malformed message may be malformed too. -/
def handleIncomingErrorMessage (n : Node) (tick : Tick) (jData : Json) (error : String)
    (order : ArgumentOrder := .portFirst) : Except Exn Json := do
  if jData.contains "from" then
    let jFrom ← jData.field "from"
    if jFrom.contains "host" && jFrom.contains "port" && jFrom.contains "public_key" then
      let toPeer ← UserPeer.ofJson jFrom order
      return (ErrorMessageResponse.create tick n.config.me toPeer error).serialize
  return .object [("type", .string "ERROR_RESPONSE"), ("error", .string "Invalid request")]

/-- `handleOutgoingBlockchainErrorMessage`. -/
def handleOutgoingBlockchainErrorMessage (n : Node) (response : BlockchainErrorMessageResponse) :
    Node :=
  { n with messages := (MessageService.removeMessageByBlockHashOrId n.messages response.blockHash
      response.messageId).1 }

/-! ## Requests -/

/-- The peer an answer comes from: the address that was asked, with the key in use. -/
def answering (n : Node) (message : Message) : UserPeer :=
  { message.toPeer with publicKey := n.config.publicKey }

/-- `handleIncomingConnectionMessage`. -/
def handleIncomingConnectionMessage (n : Node) (tick : Tick) (message : ConnectionMessage) :
    Node × Json :=
  let n := { n with peers := PeerService.addPeer n.peers message.fromPeer }
  let missingCount := ChainDB.countBlocksAfterHash n.chain message.lastBlockHash
  (n, (ConnectionMessageResponse.create tick (answering n message.toMessage) message.fromPeer
    (UInt32.ofNat n.peers.length) missingCount).serialize)

/-- `handleIncomingTextMessage`; nobody looks at what the insertion answers. -/
def handleIncomingTextMessage (n : Node) (tick : Tick) (message : TextMessage)
    (messageDump : Json) : Node × Json :=
  ({ n with
      messages := (MessageDB.insertSecretMessage n.messages message messageDump
        message.blockHash).1
      chatPeers := PeerDB.addPeer n.chatPeers message.fromPeer },
    (Message.create tick .textMessageResponse (answering n message.toMessage)
      message.fromPeer).basicSerialization)

/-- `handleIncomingPeerListMessage`; the end of the loop is computed in 32 bits. -/
def handleIncomingPeerListMessage (n : Node) (tick : Tick) (message : PeerListMessage) :
    Node × Json :=
  let last := (message.start + message.count).toNat
  let peers := ((n.peers.take last).drop message.start.toNat).filter (· ≠ message.fromPeer)
  (n, (PeerListMessageResponse.create tick message.toPeer message.fromPeer peers).serialize)

/-- `handleIncomingBlockRangeMessage`. -/
def handleIncomingBlockRangeMessage (n : Node) (tick : Tick) (message : BlockRangeMessage) :
    Node × Json :=
  let blocks := ChainDB.getBlocksByIndexRange n.chain message.start message.count message.lastHash
  (n, (BlockRangeMessageResponse.create tick message.toPeer message.fromPeer blocks).serialize)

/-- `handleIncomingDisconnectionMessage`. -/
def handleIncomingDisconnectionMessage (n : Node) (tick : Tick) (message : Message) :
    Node × Json :=
  ({ n with peers := PeerService.removePeer n.peers message.fromPeer },
    (Message.create tick .disconnectResponse message.toPeer message.fromPeer).basicSerialization)

/-- The body of the `try` block of `handleIncomingMessage`. -/
def dispatchIncoming (n : Node) (tick : Tick) (jMessage : Json)
    (order : ArgumentOrder := .portFirst) : Except Exn (Node × Json) := do
  let type ← jMessage.field "type"
  if type.isString MessageType.connect.toString then
    return handleIncomingConnectionMessage n tick (← ConnectionMessage.ofJson jMessage order)
  else if type.isString MessageType.textMessage.toString then
    let message ← TextMessage.ofJson E jMessage n.config.privateKey false false order
    return handleIncomingTextMessage n tick message jMessage
  else if type.isString MessageType.peerList.toString then
    return handleIncomingPeerListMessage n tick (← PeerListMessage.ofJson jMessage order)
  else if type.isString MessageType.blockRangeRequest.toString then
    return handleIncomingBlockRangeMessage n tick (← BlockRangeMessage.ofJson jMessage order)
  else if type.isString MessageType.disconnect.toString then
    return handleIncomingDisconnectionMessage n tick (← DisconnectionMessage.ofJson jMessage order)
  else if type.isString MessageType.blockchainErrorResponse.toString then
    let message ← BlockchainErrorMessageResponse.ofJson jMessage order
    -- `response` keeps the value the server gave it
    return (handleOutgoingBlockchainErrorMessage n message, .object [])
  else
    return (n, .object [("type", .string "ERROR_RESPONSE"),
      ("error", .string "Invalid message type")])

/-- `ChatService::handleIncomingMessage`: the node afterwards, and the response or what the
error handler throws.  Every handler changes the node only after the message was decoded.  A key
that is looked up and absent is undefined in the source; here it ends like a json exception, and
what is said about answers leaves it out. -/
def handleIncomingMessage (n : Node) (tick : Tick) (jMessage : Json)
    (order : ArgumentOrder := .portFirst) : Node × Except Exn Json :=
  match dispatchIncoming E n tick jMessage order with
  | .ok (n', response) => (n', .ok response)
  | .error (.std what) => (n, handleIncomingErrorMessage n tick jMessage what order)
  | .error _ => (n, .ok (.object [("type", .string "ERROR_RESPONSE"),
      ("error", .string "Invalid data format")]))

/-! ## Responses -/

/-- `handleOutgoingConnectionMessage`. -/
def handleOutgoingConnectionMessage (n : Node) (response : ConnectionMessageResponse) : Node :=
  { n with
    peers := PeerService.addPeer n.peers response.fromPeer
    peersToReceive := response.peersToReceive
    missingBlocksCount := response.missingBlocksCount }

/-- `handleOutgoingPeerListMessage`. -/
def handleOutgoingPeerListMessage (n : Node) (response : PeerListMessageResponse) : Node :=
  { n with peers := response.peers.foldl PeerService.addPeer n.peers }

/-- `handleOutgoingBlockRangeMessage`. -/
def handleOutgoingBlockRangeMessage (n : Node) (response : BlockRangeMessageResponse) : Node :=
  { n with newBlocks := n.newBlocks ++ response.blocks }

/-- The body of the `try` block of `handleOutgoingMessage`, after the text was parsed.  The tag is
read with the non-const `operator[]`, which makes a missing one `null`. -/
def dispatchOutgoing (n : Node) (jData : Json) : Except Exn Node := do
  let type := (jData.field "type").toOption.getD .null
  if type.isString MessageType.errorResponse.toString then
    let _ ← ErrorMessageResponse.ofJson jData
    return n
  else if type.isString MessageType.blockchainErrorResponse.toString then
    return handleOutgoingBlockchainErrorMessage n (← BlockchainErrorMessageResponse.ofJson jData)
  else if type.isString MessageType.connectResponse.toString then
    return handleOutgoingConnectionMessage n (← ConnectionMessageResponse.ofJson jData)
  else if type.isString MessageType.textMessageResponse.toString then
    let _ ← TextMessageResponse.ofJson jData
    return n
  else if type.isString MessageType.peerListResponse.toString then
    return handleOutgoingPeerListMessage n (← PeerListMessageResponse.ofJson jData)
  else if type.isString MessageType.blockRangeResponse.toString then
    return handleOutgoingBlockRangeMessage n (← BlockRangeMessageResponse.ofJson jData)
  else if type.isString MessageType.disconnectResponse.toString then
    let _ ← DisconnectionMessageResponse.ofJson jData
    return n
  else
    return n

/-- `ChatService::handleOutgoingMessage`; what is thrown is only logged.  `none` is a response that
does not parse. -/
def handleOutgoingMessage (n : Node) (response : Option Json) : Node :=
  match response with
  | none => n
  | some jData =>
      match dispatchOutgoing n jData with
      | .ok n' => n'
      | .error _ => n

/-! ## Text messages

What comes back from a text message is a response or an error, and neither changes the sender. -/

/-- The value is tagged as the response to a text message. -/
def IsTextResponse (response : Json) : Prop :=
  response.field "type" = .ok (.string MessageType.textMessageResponse.toString)

theorem handleIncomingErrorMessage_type {n : Node} {tick : Tick} {j response : Json}
    {error : String} {order : ArgumentOrder}
    (h : handleIncomingErrorMessage n tick j error order = .ok response) :
    response.field "type" = .ok (.string MessageType.errorResponse.toString) := by
  rw [handleIncomingErrorMessage] at h
  split at h
  · rcases hfrom : j.field "from" with e | jFrom
    · simp [hfrom, bind, Except.bind] at h
    · simp only [hfrom, bind, Except.bind] at h
      split at h
      · rcases hpeer : UserPeer.ofJson jFrom order with e | p
        · simp [hpeer] at h
        · simp only [hpeer, pure, Except.pure, Except.ok.injEq] at h
          exact h ▸ rfl
      · exact Except.ok.inj h ▸ rfl
  · exact Except.ok.inj h ▸ rfl

/-- A text message is decoded, and stored if its id is new. -/
theorem handleIncomingMessage_text (n : Node) (tick : Tick) {j : Json}
    (htype : j.field "type" = .ok (.string MessageType.textMessage.toString)) :
    (∃ message, TextMessage.ofJson E j n.config.privateKey false false = .ok message ∧
      (handleIncomingMessage E n tick j).1 = (handleIncomingTextMessage n tick message j).1 ∧
      ∃ response, (handleIncomingMessage E n tick j).2 = .ok response ∧ IsTextResponse response) ∨
    (∃ e, TextMessage.ofJson E j n.config.privateKey false false = .error e ∧
      (handleIncomingMessage E n tick j).1 = n ∧
      ∀ response, (handleIncomingMessage E n tick j).2 = .ok response →
        response.field "type" = .ok (.string MessageType.errorResponse.toString)) := by
  cases hdecode : TextMessage.ofJson E j n.config.privateKey false false with
  | ok message =>
      left
      refine ⟨message, rfl, ?_⟩
      simp only [handleIncomingMessage, dispatchIncoming, htype, bind, Except.bind, hdecode, pure,
        Except.pure, MessageType.isString_toString]
      exact ⟨rfl, _, rfl, rfl⟩
  | error e =>
      right
      refine ⟨e, rfl, ?_⟩
      -- each catch of the source answers with an error and leaves the node alone
      have hdispatch : dispatchIncoming E n tick j = .error e := by
        simp [dispatchIncoming, htype, bind, Except.bind, hdecode]
      cases e with
      | absentKey key =>
          simp only [handleIncomingMessage, hdispatch]
          exact ⟨trivial, fun response h => Except.ok.inj h ▸ rfl⟩
      | json what =>
          simp only [handleIncomingMessage, hdispatch]
          exact ⟨trivial, fun response h => Except.ok.inj h ▸ rfl⟩
      | std what =>
          simp only [handleIncomingMessage, hdispatch]
          exact ⟨trivial, fun response h => handleIncomingErrorMessage_type h⟩

theorem handleOutgoingMessage_text {n : Node} {response : Json}
    (h : IsTextResponse response ∨
      response.field "type" = .ok (.string MessageType.errorResponse.toString)) :
    handleOutgoingMessage n (some response) = n := by
  -- neither kind of answer has a handler that writes
  have hdispatch : ∀ n', dispatchOutgoing n response = .ok n' → n' = n := by
    intro n' hn'
    rcases h with h | h
    · have htype : ((response.field "type").toOption.getD .null) =
          .string MessageType.textMessageResponse.toString := by rw [h]; rfl
      rcases hbody : TextMessageResponse.ofJson response with e | m
      · simp [dispatchOutgoing, htype, hbody, bind, Except.bind] at hn'
      · simpa [dispatchOutgoing, htype, hbody, bind, Except.bind, pure, Except.pure,
          eq_comm] using hn'
    · have htype : ((response.field "type").toOption.getD .null) =
          .string MessageType.errorResponse.toString := by rw [h]; rfl
      rcases hbody : ErrorMessageResponse.ofJson response with e | m
      · simp [dispatchOutgoing, htype, hbody, bind, Except.bind] at hn'
      · simpa [dispatchOutgoing, htype, hbody, bind, Except.bind, pure, Except.pure,
          eq_comm] using hn'
  -- an answer that cannot be decoded is caught and dropped
  cases hresult : dispatchOutgoing n response with
  | error e => simp [handleOutgoingMessage, hresult]
  | ok n' => simp [handleOutgoingMessage, hresult, hdispatch n' hresult]

end ChatService

end Chat
end DChat
