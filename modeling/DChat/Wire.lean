import DChat.HonestSend

/-!
# Wire — what is sent is what is read, and it reaches the right service

A connection carries the dump of a block or of a message.  The constructor of the same type gives
the value back, and the two keys that `TCPServer` looks at are those of a block and of no message.
-/

namespace DChat
namespace Messaging

open Utils Crypto Peer Blockchain

/-! ## Messages as their constructors build them -/

/-- What the constructor of every message takes besides the payload. -/
structure Header where
  id : String
  fromPeer : UserPeer
  toPeer : UserPeer
  timestamp : UInt64

/-- `Message(id, type, from, to, timestamp)`. -/
def Header.typed (h : Header) (type : MessageType) : Message :=
  { id := h.id, type, fromPeer := h.fromPeer, toPeer := h.toPeer, timestamp := h.timestamp }

/-- The messages that travel in the open, by the arguments of their constructors. -/
inductive PlainMessage
  | connection (h : Header) (lastBlockHash : String)
  | connectionResponse (h : Header) (peersToReceive missingBlocksCount : UInt32)
  | peerList (h : Header) (start count : UInt32)
  | peerListResponse (h : Header) (peers : List UserPeer)
  | blockRange (h : Header) (start count : UInt32) (lastHash : String)
  | blockRangeResponse (h : Header) (blocks : List Block)
  | disconnection (h : Header)
  | disconnectionResponse (h : Header)
  | error (h : Header) (what : String)
  /-- The constructor leaves the recipient empty. -/
  | blockchainError (id : String) (fromPeer : UserPeer) (timestamp : UInt64)
      (what blockHash messageId : String)
  | textResponse (h : Header)

/-- `TextMessage(id, from, to, timestamp, message, blockHash)`. -/
def Header.text (h : Header) (message : Bytes) (blockHash : String) : TextMessage :=
  { toMessage := h.typed .textMessage, signature := [], blockHash, message }

namespace PlainMessage

/-- `serialize` of each type. -/
def serialize : PlainMessage → Json
  | connection h lastBlockHash =>
      ConnectionMessage.serialize { toMessage := h.typed .connect, lastBlockHash }
  | connectionResponse h peersToReceive missingBlocksCount =>
      ConnectionMessageResponse.serialize
        { toMessage := h.typed .connectResponse, peersToReceive, missingBlocksCount }
  | peerList h start count =>
      PeerListMessage.serialize { toMessage := h.typed .peerList, start, count }
  | peerListResponse h peers =>
      PeerListMessageResponse.serialize { toMessage := h.typed .peerListResponse, peers }
  | blockRange h start count lastHash =>
      BlockRangeMessage.serialize
        { toMessage := h.typed .blockRangeRequest, start, count, lastHash }
  | blockRangeResponse h blocks =>
      BlockRangeMessageResponse.serialize { toMessage := h.typed .blockRangeResponse, blocks }
  | disconnection h => (h.typed .disconnect).basicSerialization
  | disconnectionResponse h => (h.typed .disconnectResponse).basicSerialization
  | error h what =>
      ErrorMessageResponse.serialize { toMessage := h.typed .errorResponse, error := what }
  | blockchainError id fromPeer timestamp what blockHash messageId =>
      BlockchainErrorMessageResponse.serialize
        { id, type := .blockchainErrorResponse, fromPeer, toPeer := .default, timestamp
          error := what, blockHash, messageId }
  | textResponse h => (h.typed .textMessageResponse).basicSerialization

/-- The constructor of the type of `m` reads the value of `m` out of `jData`. -/
def ReadFrom (jData : Json) : PlainMessage → Prop
  | connection h lastBlockHash =>
      ConnectionMessage.ofJson jData = .ok { toMessage := h.typed .connect, lastBlockHash }
  | connectionResponse h peersToReceive missingBlocksCount =>
      ConnectionMessageResponse.ofJson jData =
        .ok { toMessage := h.typed .connectResponse, peersToReceive, missingBlocksCount }
  | peerList h start count =>
      PeerListMessage.ofJson jData = .ok { toMessage := h.typed .peerList, start, count }
  | peerListResponse h peers =>
      PeerListMessageResponse.ofJson jData = .ok { toMessage := h.typed .peerListResponse, peers }
  | blockRange h start count lastHash =>
      BlockRangeMessage.ofJson jData =
        .ok { toMessage := h.typed .blockRangeRequest, start, count, lastHash }
  | blockRangeResponse h blocks =>
      BlockRangeMessageResponse.ofJson jData =
        .ok { toMessage := h.typed .blockRangeResponse, blocks }
  | disconnection h => DisconnectionMessage.ofJson jData = .ok (h.typed .disconnect)
  | disconnectionResponse h =>
      DisconnectionMessageResponse.ofJson jData = .ok (h.typed .disconnectResponse)
  | error h what =>
      ErrorMessageResponse.ofJson jData =
        .ok { toMessage := h.typed .errorResponse, error := what }
  | blockchainError id fromPeer timestamp what blockHash messageId =>
      BlockchainErrorMessageResponse.ofJson jData =
        .ok { id, type := .blockchainErrorResponse, fromPeer, toPeer := .default, timestamp
              error := what, blockHash, messageId }
  | textResponse h => TextMessageResponse.ofJson jData = .ok (h.typed .textMessageResponse)

theorem readFrom_serialize (m : PlainMessage) : m.ReadFrom m.serialize := by
  cases m with
  | connection h lastBlockHash => exact ConnectionMessage.ofJson_serialize (by rfl)
  | connectionResponse h peersToReceive missingBlocksCount =>
      exact ConnectionMessageResponse.ofJson_serialize (by rfl)
  | peerList h start count => exact PeerListMessage.ofJson_serialize (by rfl)
  | peerListResponse h peers => exact PeerListMessageResponse.ofJson_serialize (by rfl)
  | blockRange h start count lastHash => exact BlockRangeMessage.ofJson_serialize (by rfl)
  | blockRangeResponse h blocks => exact BlockRangeMessageResponse.ofJson_serialize (by rfl)
  | disconnection h => exact ofJsonBare_basicSerialization (by rfl)
  | disconnectionResponse h => exact ofJsonBare_basicSerialization (by rfl)
  | error h what => exact ErrorMessageResponse.ofJson_serialize (by rfl)
  | blockchainError id fromPeer timestamp what blockHash messageId =>
      exact BlockchainErrorMessageResponse.ofJson_serialize (by rfl)
  | textResponse h => exact Message.ofJson_basicSerialization _

/-- No message has the key that every block has. -/
theorem contains_serialize (m : PlainMessage) : m.serialize.contains "previousHash" = false := by
  cases m <;> rfl

end PlainMessage

end Messaging

/-! ## Dispatch -/

namespace Network
namespace TCPServer

open Utils Crypto Peer Messaging Blockchain BlockchainService Chat AtomicProg

/-- Whatever the node, the value goes to `onIncomingBlock`. -/
def TakenAsBlock (E : Env) (jData : Json) : Prop :=
  ∀ (n : Node) (visit : Visit), serve E n visit jData =
    ({ n with chain := ((BlockchainService.onIncomingBlock E n.config.me visit.checked visit.tick
        jData).run ChainOp.exec n.chain).2 },
      some ((BlockchainService.onIncomingBlock E n.config.me visit.checked visit.tick jData).run
        ChainOp.exec n.chain).1)

/-- Whatever the node, the value goes to `handleIncomingMessage`. -/
def TakenAsMessage (E : Env) (jData : Json) : Prop :=
  ∀ (n : Node) (visit : Visit), serve E n visit jData =
    ((ChatService.handleIncomingMessage E n visit.tick jData).1,
      (ChatService.handleIncomingMessage E n visit.tick jData).2.toOption)

theorem takenAsMessage_of_contains {E : Env} {jData : Json}
    (h : jData.contains "previousHash" = false) : TakenAsMessage E jData := by
  intro n visit
  apply serve_of_message
  rw [h, Bool.false_and]

/-! ## Round trip and routing -/

/-- Everything that is sent is read back by the constructor of its type, a text by both parties,
and is handed to the service it is meant for. -/
theorem wire_format {E : Env} (laws : E.crypto.SignatureLaws) (session : E.crypto.SessionLaws) :
    (∀ m : PlainMessage, m.ReadFrom m.serialize ∧ TakenAsMessage E m.serialize) ∧
      (∀ block : Block, Block.ofJson block.toJson = .ok block ∧ TakenAsBlock E block.toJson) ∧
      ∀ (sender recipient : Config), sender.KeyPairMatches E → recipient.KeyPairMatches E →
        ∀ (h : Header) (message : Bytes) (blockHash : String) (draws : TextMessage.Draws),
          h.fromPeer.publicKey = sender.publicKey → h.toPeer.publicKey = recipient.publicKey →
          ∃ jData, (h.text message blockHash).serialize E sender.privateKey draws = .ok jData ∧
            TakenAsMessage E jData ∧
            ∃ signature, ∀ createObjectIfError,
              TextMessage.ofJson E jData recipient.privateKey false createObjectIfError =
                  .ok { h.text message blockHash with signature := signature } ∧
                TextMessage.ofJson E jData sender.privateKey true createObjectIfError =
                  .ok { h.text message blockHash with signature := signature } := by
  refine ⟨fun m => ⟨m.readFrom_serialize, takenAsMessage_of_contains m.contains_serialize⟩,
    fun block => ⟨Block.ofJson_toJson block, fun n visit => serve_of_block n visit rfl⟩, ?_⟩
  intro sender recipient hsender hrecipient h message blockHash draws hfrom hto
  -- both ends derive the same session key, so each reads what the other wrote
  rcases TextMessage.serialize_ok laws session hsender hrecipient
    (m := h.text message blockHash) hto draws with ⟨jData, hserialize⟩
  refine ⟨jData, hserialize, ?_, ?_⟩
  · rcases TextMessage.serialize_eq_ok hserialize with ⟨_, _, _, _, _, _, _, _, rfl⟩
    exact takenAsMessage_of_contains (TextMessage.contains_envelope _ _ _)
  · exact TextMessage.ofJson_serialize laws session hsender hrecipient rfl hfrom hto hserialize

/-- In the set-up of the tests, with a text between two parties. -/
theorem wire_format_test :
    (∀ m : PlainMessage, m.ReadFrom m.serialize ∧ TakenAsMessage testEnv m.serialize) ∧
      ∃ jData, ((Header.mk "1" FirstBlock.config.me FirstBlock.rivalConfig.me 7).text
          (bytesOf "hi") "0").serialize testEnv FirstBlock.config.privateKey ⟨1, 2⟩ = .ok jData ∧
        TakenAsMessage testEnv jData := by
  have h := wire_format (E := testEnv) XORCrypto.signatureLaws XORCrypto.sessionLaws
  rcases h.2.2 FirstBlock.config FirstBlock.rivalConfig FirstBlock.keyPairMatches
    FirstBlock.rival_keyPairMatches ⟨"1", FirstBlock.config.me, FirstBlock.rivalConfig.me, 7⟩
    (bytesOf "hi") "0" ⟨1, 2⟩ rfl rfl with ⟨jData, hserialize, htaken, _⟩
  exact ⟨h.1, jData, hserialize, htaken⟩

end TCPServer
end Network
end DChat
