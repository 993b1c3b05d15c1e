import DChat.ChatService
import DChat.IncomingBlock
import DChat.Library.PartyMap

/-!
# Network — the nodes at their addresses, and a send from beginning to end

A connection carries one JSON text each way.  Whoever receives reads `BUFFER_SIZE - 1` bytes and
no more, so a longer text arrives without its end and does not parse.

`TCPServer.serve` is what a node does with a text that parses; `TCPClient.sendSecretMessage` is
one send of a text message: the message to its recipient, the block to the peers one after
the other, the block into the own chain, or the removal of the message.  The recipient removes it
when the report of that arrives, which is a step of its own.
-/

namespace DChat
namespace Network

open Utils Crypto Peer Messaging Blockchain Chat AtomicProg PartyMap

/-- `BUFFER_SIZE` of the sockets. -/
def bufferSize : Nat := 32768

/-- What is parsed out of a received text, from either end of a connection. -/
def received (sent : Json) : Option Json :=
  if sent.dumpLen ≤ bufferSize - 1 then some sent else none

/-- The nodes that listen, by address. -/
abbrev Nodes := Parties UserHost Node

/-- What the request finds at the node: the clock when a block is checked, and the id and the
time of the response. -/
structure Visit where
  checked : ClockReading
  tick : Tick

variable (E : Env)

namespace TCPServer

/-- The handler of `TCPServer::start`: the node afterwards, and the response unless something is
thrown. -/
def serve (n : Node) (visit : Visit) (jData : Json) (order : ArgumentOrder := .portFirst) :
    Node × Option Json :=
  if jData.contains "previousHash" && jData.contains "payloadHash" then
    let (response, chain) := (BlockchainService.onIncomingBlock E n.config.me visit.checked
      visit.tick jData).run ChainOp.exec n.chain
    ({ n with chain }, some response)
  else
    match ChatService.handleIncomingMessage E n visit.tick jData order with
    | (n', .ok response) => (n', some response)
    | (n', .error _) => (n', none)

variable {E}

/-- The two keys of a block decide where a value goes. -/
theorem serve_of_block {jData : Json} (n : Node) (visit : Visit)
    (h : (jData.contains "previousHash" && jData.contains "payloadHash") = true)
    (order : ArgumentOrder := .portFirst) :
    serve E n visit jData order =
      ({ n with chain := ((BlockchainService.onIncomingBlock E n.config.me visit.checked visit.tick
          jData).run ChainOp.exec n.chain).2 },
        some ((BlockchainService.onIncomingBlock E n.config.me visit.checked visit.tick
          jData).run ChainOp.exec n.chain).1) := by
  rw [serve, h]
  rfl

theorem serve_of_message {jData : Json} (n : Node) (visit : Visit)
    (h : (jData.contains "previousHash" && jData.contains "payloadHash") = false)
    (order : ArgumentOrder := .portFirst) :
    serve E n visit jData order =
      ((ChatService.handleIncomingMessage E n visit.tick jData order).1,
        (ChatService.handleIncomingMessage E n visit.tick jData order).2.toOption) := by
  rcases hhandle : ChatService.handleIncomingMessage E n visit.tick jData order with ⟨n', result⟩
  rw [serve, h]
  cases result <;> simp [hhandle, Except.toOption]

end TCPServer

/-- One connection: the text goes to the node at the address, which may answer. -/
def request (net : Nodes) (host : UserHost) (visit : Visit) (jData : Json) :
    Nodes × Option Json :=
  match received jData with
  | none => (net, none)
  | some jData =>
      (modify host (fun n => (TCPServer.serve E n visit jData).1) net,
        (net host).bind fun n => (TCPServer.serve E n visit jData).2)

namespace TCPClient

/-- What a send takes from outside: the draws of the generators, and what its connections find. -/
structure Outside where
  blockSign : Rand
  draws : TextMessage.Draws
  textVisit : Visit
  blockVisit : UserPeer → Visit
  errorTick : Tick
  errorVisit : Visit

/-- How a send ends. -/
inductive Outcome
  /-- No block or JSON could be made, or the JSON is too big. -/
  | thrown (e : Exn)
  /-- Nobody listens at the recipient's address. -/
  | unreachable
  /-- `storeAndBroadcastBlock` returned false. -/
  | rolledBack (block : Block) (answer : Option Json)
  /-- `storeAndBroadcastBlock` returned true. -/
  | stored (block : Block) (answer : Option Json)

/-- The first part of `sendSecretMessage`: the block, and the message that carries its hash. -/
def prepare (out : Outside) (sender : Node) (message : TextMessage) :
    Except Exn (Block × Json) := do
  let block ← ((BlockchainService.createBlockFromMessage E sender.config.privateKey out.blockSign
    message).run ChainOp.exec sender.chain).1
  let jMessage ← (message.setBlockHash block.hash).serialize E sender.config.privateKey out.draws
  if jMessage.dumpLen > bufferSize then
    .error (.std "Message is too big")
  else
    return (block, jMessage)

/-- The connection to the recipient, and what the sender stores whatever the answer was. -/
def deliver (out : Outside) (own : UserHost) (message : TextMessage) (block : Block)
    (jMessage : Json) (net : Nodes) : Nodes × Option Json :=
  let (net, answer) := request E net message.toPeer.toUserHost out.textVisit jMessage
  let afterAnswer := fun n => ChatService.handleOutgoingMessage n (answer.bind received)
  let afterInsert := fun n : Node =>
    { n with
      messages := (MessageDB.insertSecretMessage n.messages (message.setBlockHash block.hash)
        jMessage block.hash).1
      chatPeers := PeerDB.addPeer n.chatPeers message.toPeer }
  (modify own (fun n => afterInsert (afterAnswer n)) net, answer)

/-- The callback of `sendSecretMessage`.  A peer that cannot be reached counts as one that took
the block. -/
def sendCallback (out : Outside) (raw : Json) (peer : UserPeer) (net : Nodes) :
    Except Exn Bool × Nodes :=
  match net peer.toUserHost with
  | none => (.ok true, net)
  | some _ =>
      let (net, response) := request E net peer.toUserHost (out.blockVisit peer) raw
      match response.bind received with
      | none => (.ok false, net)
      | some jResponse =>
          (.ok (!(jResponse.contains "type" && ((jResponse.field "type").toOption.getD
            .null).isString MessageType.blockchainErrorResponse.toString)), net)

/-- `storeAndBroadcastBlock` over the peers the sender has by now. -/
def storeAndBroadcastBlock (out : Outside) (own : UserHost) (block : Block) (net : Nodes) :
    Bool × Nodes :=
  let peers := ((net own).map Node.peers).getD []
  let (sent, net) := BlockchainService.broadcast (sendCallback E out block.toJson) peers net
  match net own with
  | none => (false, net)
  | some n =>
      let (stored, chain) := (BlockchainService.storeBlock sent block).run ChainOp.exec n.chain
      (stored, modify own (fun n => { n with chain }) net)

/-- The error the sender reports to the recipient; it names the recipient as its origin. -/
def errorMessage (out : Outside) (message : TextMessage) (block : Block) :
    BlockchainErrorMessageResponse :=
  .create out.errorTick message.toPeer "Block was not stored (maybe duplicate  or fork)"
    block.hash message.id

/-- What the sender does at home about a block that was not stored. -/
def rollback (own : UserHost) (message : TextMessage) (block : Block) (net : Nodes) : Nodes :=
  modify own (fun n => { n with
    messages := (MessageService.removeMessageByBlockHashOrId n.messages block.hash
      message.id).1 }) net

/-- The error report arrives.  The sender hands it to the socket and goes on, and never reads a
response, so this is no part of the send: it happens in whatever state the nodes are by then. -/
def deliverReport (out : Outside) (message : TextMessage) (block : Block) (net : Nodes) : Nodes :=
  (request E net message.toPeer.toUserHost out.errorVisit
    (errorMessage out message block).serialize).1

/-- `TCPClient::sendSecretMessage` of the node at the address `own`.  When it ends with a rollback,
the error report is on its way. -/
def sendSecretMessage (out : Outside) (own : UserHost) (message : TextMessage) (net : Nodes) :
    Nodes × Outcome :=
  match net own with
  | none => (net, .unreachable)
  | some sender =>
      match prepare E out sender message with
      | .error e => (net, .thrown e)
      | .ok (block, jMessage) =>
          match net message.toPeer.toUserHost with
          | none => (net, .unreachable)
          | some _ =>
              let (net, answer) := deliver E out own message block jMessage net
              match storeAndBroadcastBlock E out own block net with
              | (true, net) => (net, .stored block answer)
              | (false, net) => (rollback own message block net, .rolledBack block answer)

end TCPClient

end Network
end DChat
