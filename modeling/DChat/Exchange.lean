import DChat.Requests
import DChat.Wire

/-!
# Exchange — one request of a client and what both ends make of it

`TCPClient::sendMessage` writes a request, waits for the answer and handles it.  When both texts
arrive, an exchange is described by the handler at the server followed by the one at the client:
CONNECT makes the two know each other and tells the client the two counts, PEER_LIST and
BLOCK_RANGE copy a page from one to the other.
-/

namespace DChat
namespace Network

open Utils Crypto Peer Messaging Blockchain Chat Request

/-- `PEERS_BATCH_SIZE`. -/
def peersBatchSize : UInt32 := 12

/-- `BLOCKS_BATCH_SIZE`. -/
def blocksBatchSize : UInt32 := 4

variable {E : Env}

/-- What is decoded is handled and answered. -/
theorem TCPServer.serve_of_decode {n : Node} {j : Json} {request : Request} (visit : Visit)
    (hmessage : (j.contains "previousHash" && j.contains "payloadHash") = false)
    (hdecode : decode (decodeText E n.config.privateKey) j = .ok request) :
    serve E n visit j =
      ((request.handle n visit.tick j).1, some (request.handle n visit.tick j).2) := by
  rw [serve_of_message n visit hmessage, handleIncomingMessage_eq, hdecode]
  rfl

namespace TCPClient

/-- The check of `TCPClient::sendMessage`, which comes before it is known whether anybody
listens. -/
def checkSize (jMessage : Json) : Except Exn Unit :=
  if jMessage.dumpLen > bufferSize then .error (.std "Message is too big") else .ok ()

/-- `TCPClient::sendMessage` to a node that listens: the node and the client afterwards.  A text
that does not fit into the buffer of its receiver does not parse, at either end. -/
def sendMessage (E : Env) (server client : Node) (visit : Visit) (jMessage : Json) :
    Except Exn (Node × Node) := do
  checkSize jMessage
  match received jMessage with
  | none => return (server, client)
  | some jMessage =>
      let (server, answer) := TCPServer.serve E server visit jMessage
      return (server, ChatService.handleOutgoingMessage client (answer.bind received))

theorem checkSize_of_le {j : Json} (h : j.dumpLen ≤ bufferSize) : checkSize j = .ok () :=
  if_neg (Nat.not_lt_of_le h)

/-- The request and its answer fit into the buffers. -/
def Arrives (E : Env) (server : Node) (visit : Visit) (jMessage : Json) : Prop :=
  jMessage.dumpLen ≤ bufferSize - 1 ∧ ∀ answer,
    (TCPServer.serve E server visit jMessage).2 = some answer → answer.dumpLen ≤ bufferSize - 1

instance (E : Env) (server : Node) (visit : Visit) (jMessage : Json) :
    Decidable (Arrives E server visit jMessage) :=
  decidable_of_iff (jMessage.dumpLen ≤ bufferSize - 1 ∧
    (TCPServer.serve E server visit jMessage).2.all
      (fun answer => decide (answer.dumpLen ≤ bufferSize - 1)) = true)
    (and_congr_right fun _ => by
      cases (TCPServer.serve E server visit jMessage).2 <;> simp)

theorem arrives_iff {server server' : Node} {visit : Visit} {j answer : Json}
    (hserve : TCPServer.serve E server visit j = (server', some answer)) :
    Arrives E server visit j ↔
      j.dumpLen ≤ bufferSize - 1 ∧ answer.dumpLen ≤ bufferSize - 1 := by
  rw [Arrives, hserve]
  exact and_congr_right fun _ => ⟨fun h => h _ rfl, fun h _ heq => Option.some.inj heq ▸ h⟩

theorem Arrives.checkSize {server : Node} {visit : Visit} {j : Json}
    (h : Arrives E server visit j) : checkSize j = .ok () :=
  checkSize_of_le (Nat.le_trans h.1 (Nat.sub_le _ _))

theorem sendMessage_of_arrives {server server' : Node} {visit : Visit} {j answer : Json}
    (hserve : TCPServer.serve E server visit j = (server', some answer))
    (harrives : Arrives E server visit j) (client : Node) :
    sendMessage E server client visit j =
      .ok (server', ChatService.handleOutgoingMessage client (some answer)) := by
  rcases (arrives_iff hserve).1 harrives with ⟨hrequest, hanswer⟩
  rw [sendMessage, harrives.checkSize]
  simp only [received, hrequest, if_true, hserve, Option.bind_some, hanswer]
  rfl

/-- The request may be too big, it may not arrive, or the answer may not. -/
theorem sendMessage_cases {server server' : Node} {visit : Visit} {j answer : Json}
    (hserve : TCPServer.serve E server visit j = (server', some answer)) (client : Node) :
    (∃ e, sendMessage E server client visit j = .error e) ∨
      sendMessage E server client visit j = .ok (server, client) ∨
      sendMessage E server client visit j = .ok (server', client) ∨
      sendMessage E server client visit j =
        .ok (server', ChatService.handleOutgoingMessage client (some answer)) := by
  cases hcheck : checkSize j with
  | error e =>
      left
      refine ⟨e, ?_⟩
      rw [sendMessage, hcheck]
      rfl
  | ok =>
      right
      by_cases hrequest : j.dumpLen ≤ bufferSize - 1
      · right
        by_cases hanswer : answer.dumpLen ≤ bufferSize - 1
        · right
          exact sendMessage_of_arrives hserve ((arrives_iff hserve).2 ⟨hrequest, hanswer⟩) _
        · left
          rw [sendMessage, hcheck]
          simp only [received, hrequest, if_true, hserve, Option.bind_some, hanswer, if_false]
          rfl
      · left
        rw [sendMessage, hcheck]
        simp only [received, hrequest, if_false]
        rfl

/-! ## The three requests of a client -/

variable {server client : Node} {visit : Visit} {sent : Tick} {recipient : UserPeer}

theorem sendMessage_connect {lastHash : String} (harrives : Arrives E server visit
      (ConnectionMessage.create sent client.config.me recipient lastHash).serialize) :
    sendMessage E server client visit
        (ConnectionMessage.create sent client.config.me recipient lastHash).serialize =
      .ok ({ server with peers := PeerService.addPeer server.peers client.config.me },
        { client with
          peers := PeerService.addPeer client.peers
            { recipient with publicKey := server.config.publicKey }
          peersToReceive :=
            UInt32.ofNat (PeerService.addPeer server.peers client.config.me).length
          missingBlocksCount := ChainDB.countBlocksAfterHash server.chain lastHash }) := by
  have hserve := TCPServer.serve_of_decode (E := E) (n := server) visit rfl
    (decode_connection (m := .create sent client.config.me recipient lastHash) rfl)
  rw [sendMessage_of_arrives hserve harrives]
  exact congrArg (fun client => Except.ok (_, client))
    (handleOutgoingMessage_of_dispatch (dispatchOutgoing_connectResponse client rfl))

theorem sendMessage_peerList {start count : UInt32} (harrives : Arrives E server visit
      (PeerListMessage.create sent client.config.me recipient start count).serialize) :
    sendMessage E server client visit
        (PeerListMessage.create sent client.config.me recipient start count).serialize =
      .ok (server, { client with
        peers := (((server.peers.take (start + count).toNat).drop start.toNat).filter
          (· ≠ client.config.me)).foldl PeerService.addPeer client.peers }) := by
  have hserve := TCPServer.serve_of_decode (E := E) (n := server) visit rfl
    (decode_peerList (m := .create sent client.config.me recipient start count) rfl)
  rw [sendMessage_of_arrives hserve harrives]
  exact congrArg (fun client => Except.ok (_, client))
    (handleOutgoingMessage_of_dispatch (dispatchOutgoing_peerListResponse client rfl))

/-- Whether the texts arrive or not, the peers of the client are all that may change. -/
theorem sendMessage_peerList_peers (server client : Node) (visit : Visit) (sent : Tick)
    (me recipient : UserPeer) (start count : UInt32) :
    (∃ e, sendMessage E server client visit
        (PeerListMessage.create sent me recipient start count).serialize = .error e) ∨
      ∃ peers, sendMessage E server client visit
          (PeerListMessage.create sent me recipient start count).serialize =
        .ok (server, { client with peers }) := by
  have hserve := TCPServer.serve_of_decode (E := E) (n := server) visit rfl
    (decode_peerList (m := .create sent me recipient start count) rfl)
  rcases sendMessage_cases hserve client with hthrown | hlost | hlost | harrived
  · exact Or.inl hthrown
  · exact Or.inr ⟨client.peers, hlost⟩
  · exact Or.inr ⟨client.peers, hlost⟩
  · exact Or.inr ⟨_, harrived.trans (congrArg (fun client => Except.ok (_, client))
      (handleOutgoingMessage_of_dispatch (dispatchOutgoing_peerListResponse client rfl)))⟩

theorem sendMessage_blockRange {start count : UInt32} {lastHash : String}
    (harrives : Arrives E server visit
      (BlockRangeMessage.create sent client.config.me recipient start count lastHash).serialize) :
    sendMessage E server client visit
        (BlockRangeMessage.create sent client.config.me recipient start count lastHash).serialize =
      .ok (server, { client with
        newBlocks := client.newBlocks ++
          ChainDB.getBlocksByIndexRange server.chain start count lastHash }) := by
  have hserve := TCPServer.serve_of_decode (E := E) (n := server) visit rfl
    (decode_blockRange (m := .create sent client.config.me recipient start count lastHash) rfl)
  rw [sendMessage_of_arrives hserve harrives]
  exact congrArg (fun client => Except.ok (_, client))
    (handleOutgoingMessage_of_dispatch (dispatchOutgoing_blockRangeResponse client rfl))

end TCPClient
end Network
end DChat
