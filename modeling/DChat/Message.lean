import DChat.Peer
import DChat.Block

/-!
# Message — the message types and their JSON codecs

Every message has the fields of `Message`; a request or response adds a payload.  `serialize`
writes the fields, the constructor from JSON reads them back and checks the type tag.  Text
messages are in `TextMessage.lean`.
-/

namespace DChat
namespace Messaging

open Utils Crypto Peer Blockchain Fallible

/-- What the `create` functions take from outside: a fresh id and the time. -/
structure Tick where
  uuid : String
  now : ClockReading

/-! ## The common part -/

/-- `message::MessageType`. -/
inductive MessageType
  | none
  | errorResponse
  | blockchainErrorResponse
  | connect
  | connectResponse
  | peerList
  | peerListResponse
  | blockRangeRequest
  | blockRangeResponse
  | textMessage
  | textMessageResponse
  | disconnect
  | disconnectResponse
  deriving DecidableEq, Repr

namespace MessageType

/-- `Message::fromMessageTypeToString`. -/
def toString : MessageType → String
  | .none => "NONE"
  | .errorResponse => "ERROR_RESPONSE"
  | .blockchainErrorResponse => "BLOCKCHAIN_ERROR_RESPONSE"
  | .connect => "CONNECT"
  | .connectResponse => "CONNECT_RESPONSE"
  | .peerList => "PEER_LIST"
  | .peerListResponse => "PEER_LIST_RESPONSE"
  | .blockRangeRequest => "BLOCK_RANGE_REQUEST"
  | .blockRangeResponse => "BLOCK_RANGE_RESPONSE"
  | .textMessage => "TEXT_MESSAGE"
  | .textMessageResponse => "TEXT_MESSAGE_RESPONSE"
  | .disconnect => "DISCONNECT"
  | .disconnectResponse => "DISCONNECT_RESPONSE"

/-- The types, in the order in which `fromStringToMessageType` compares them. -/
def all : List MessageType :=
  [.none, .errorResponse, .blockchainErrorResponse, .connect, .connectResponse, .peerList,
    .peerListResponse, .blockRangeRequest, .blockRangeResponse, .textMessage,
    .textMessageResponse, .disconnect, .disconnectResponse]

/-- `Message::fromStringToMessageType`. -/
def ofString (s : String) : Except Exn MessageType :=
  match all.find? fun t => s = t.toString with
  | some t => .ok t
  | .none => .error (.std "Unknown message type")

@[simp] theorem ofString_toString (t : MessageType) : ofString t.toString = .ok t := by
  cases t <;> rfl

/-- Type tags are distinct strings. -/
@[simp] theorem toString_inj {s t : MessageType} : s.toString = t.toString ↔ s = t := by
  constructor
  · intro h
    have hof := congrArg ofString h
    simpa using hof
  · exact congrArg _

@[simp] theorem isString_toString (s t : MessageType) :
    (Json.string s.toString).isString t.toString = decide (s = t) := by
  simp [Json.isString]

end MessageType

/-- `message::Message`. -/
structure Message where
  id : String
  type : MessageType
  fromPeer : UserPeer
  toPeer : UserPeer
  timestamp : UInt64
  deriving DecidableEq, Repr

namespace Message

/-- `Message::getBasicSerialization`. -/
def basicSerialization (m : Message) : Json :=
  .object [("id", .string m.id), ("type", .string m.type.toString), ("from", m.fromPeer.toJson),
    ("to", m.toPeer.toJson), ("timestamp", .unsigned m.timestamp)]

/-- `Message::Message(const json&)`. -/
def ofJson (jData : Json) (order : ArgumentOrder := .portFirst) : Except Exn Message := do
  let id ← (← jData.field "id").getString
  let fromPeer ← UserPeer.ofJson (← jData.field "from") order
  let toPeer ← UserPeer.ofJson (← jData.field "to") order
  let timestamp ← (← jData.field "timestamp").getUInt64
  let type ← MessageType.ofString (← (← jData.field "type").getString)
  return { id, type, fromPeer, toPeer, timestamp }

/-- The check every constructor makes on the decoded tag. -/
def expectType (m : Message) (t : MessageType) : Except Exn Unit :=
  if m.type = t then .ok () else .error (.std "Invalid message type")

/-- The fields of a message `create`d at a tick. -/
def create (tick : Tick) (type : MessageType) (fromPeer toPeer : UserPeer) : Message :=
  { id := tick.uuid, type, fromPeer, toPeer, timestamp := getTimestamp tick.now }

/-- The common fields are read from any value that has them. -/
theorem ofJson_of_fields {j : Json} {m : Message} (hid : j.field "id" = .ok (.string m.id))
    (hfrom : j.field "from" = .ok m.fromPeer.toJson) (hto : j.field "to" = .ok m.toPeer.toJson)
    (htime : j.field "timestamp" = .ok (.unsigned m.timestamp))
    (htype : j.field "type" = .ok (.string m.type.toString)) {order : ArgumentOrder} :
    ofJson j order = .ok m := by
  simp [ofJson, hid, hfrom, hto, htime, htype, bind, Except.bind, pure, Except.pure]

/-- And whatever they were read from has them. -/
theorem fields_of_ofJson {j : Json} {order : ArgumentOrder} {m : Message}
    (h : ofJson j order = .ok m) :
    j.field "id" = .ok (.string m.id) ∧
      (∃ w, j.field "from" = .ok w ∧ UserPeer.ofJson w order = .ok m.fromPeer) ∧
      (∃ w, j.field "to" = .ok w ∧ UserPeer.ofJson w order = .ok m.toPeer) ∧
      (∃ w, j.field "timestamp" = .ok w ∧ w.getUInt64 = .ok m.timestamp) ∧
      ∃ tag, j.field "type" = .ok (.string tag) ∧ MessageType.ofString tag = .ok m.type := by
  rcases bind_eq_ok.1 h with ⟨wId, hId, h⟩
  rcases bind_eq_ok.1 h with ⟨id, hid, h⟩
  rcases bind_eq_ok.1 h with ⟨wFrom, hFrom, h⟩
  rcases bind_eq_ok.1 h with ⟨fromPeer, hfrom, h⟩
  rcases bind_eq_ok.1 h with ⟨wTo, hTo, h⟩
  rcases bind_eq_ok.1 h with ⟨toPeer, hto, h⟩
  rcases bind_eq_ok.1 h with ⟨wTime, hTime, h⟩
  rcases bind_eq_ok.1 h with ⟨timestamp, htime, h⟩
  rcases bind_eq_ok.1 h with ⟨wType, hType, h⟩
  rcases bind_eq_ok.1 h with ⟨tag, htag, h⟩
  rcases bind_pure_eq_ok.1 h with ⟨type, htype, rfl⟩
  rw [Json.getString_eq_ok] at hid htag
  exact ⟨hid ▸ hId, ⟨wFrom, hFrom, hfrom⟩, ⟨wTo, hTo, hto⟩, ⟨wTime, hTime, htime⟩,
    tag, htag ▸ hType, htype⟩

theorem ofJson_basicSerialization (m : Message) {order : ArgumentOrder} :
    ofJson m.basicSerialization order = .ok m :=
  ofJson_of_fields rfl rfl rfl rfl rfl

/-- A payload does not get in the way of the common fields. -/
theorem ofJson_payload (m : Message) (payload : Json) {order : ArgumentOrder} :
    ofJson (m.basicSerialization.set "payload" payload) order = .ok m :=
  ofJson_of_fields rfl rfl rfl rfl rfl

theorem field_payload (m : Message) (payload : Json) :
    (m.basicSerialization.set "payload" payload).field "payload" = .ok payload := rfl

/-- Every constructor starts with the common fields, and what it adds to them leaves them alone. -/
theorem returns_base {α : Type} {j : Json} {order : ArgumentOrder} {f : Message → Except Exn α}
    (base : α → Message) (hf : ∀ m, Returns (fun a => base a = m) (f m)) :
    Returns (fun a => ofJson j order = .ok (base a)) (ofJson j order >>= f) := by
  refine Returns.bind fun m hm a ha => ?_
  rw [hf m a ha, hm]

end Message

/-! ## Errors -/

/-- `message::ErrorMessageResponse`. -/
structure ErrorMessageResponse extends Message where
  error : String

namespace ErrorMessageResponse

def ofJson (jData : Json) (order : ArgumentOrder := .portFirst) :
    Except Exn ErrorMessageResponse := do
  let base ← Message.ofJson jData order
  base.expectType .errorResponse
  let error ← (← (← jData.field "payload").field "error").getString
  return { toMessage := base, error }

def serialize (m : ErrorMessageResponse) : Json :=
  m.basicSerialization.set "payload" (.object [("error", .string m.error)])

def create (tick : Tick) (fromPeer toPeer : UserPeer) (error : String) : ErrorMessageResponse :=
  { toMessage := Message.create tick .errorResponse fromPeer toPeer, error }

theorem ofJson_serialize {m : ErrorMessageResponse} (h : m.type = .errorResponse)
    (order : ArgumentOrder := .portFirst) : ofJson m.serialize order = .ok m := by
  simp [ofJson, serialize, Message.ofJson_payload, Message.field_payload, Message.expectType, h,
    Json.field_cons, bind, Except.bind, pure, Except.pure]

theorem message_of_ofJson {j : Json} {m : ErrorMessageResponse} (h : ofJson j = .ok m) :
    Message.ofJson j = .ok m.toMessage := by
  refine Message.returns_base (·.toMessage) (fun base => ?_) m h
  repeat refine Returns.bind fun _ _ => ?_
  exact returns_pure rfl

end ErrorMessageResponse

/-- `message::BlockchainErrorMessageResponse`. -/
structure BlockchainErrorMessageResponse extends Message where
  error : String
  blockHash : String
  messageId : String

namespace BlockchainErrorMessageResponse

def ofJson (jData : Json) (order : ArgumentOrder := .portFirst) :
    Except Exn BlockchainErrorMessageResponse := do
  let base ← Message.ofJson jData order
  base.expectType .blockchainErrorResponse
  let error ← (← (← jData.field "payload").field "error").getString
  let blockHash ← (← (← jData.field "payload").field "blockHash").getString
  let messageId ← (← (← jData.field "payload").field "messageId").getString
  return { toMessage := base, error, blockHash, messageId }

def serialize (m : BlockchainErrorMessageResponse) : Json :=
  m.basicSerialization.set "payload" (.object [("error", .string m.error),
    ("blockHash", .string m.blockHash), ("messageId", .string m.messageId)])

/-- `create`: the message is addressed to nobody. -/
def create (tick : Tick) (fromPeer : UserPeer) (error blockHash messageId : String) :
    BlockchainErrorMessageResponse :=
  { toMessage := Message.create tick .blockchainErrorResponse fromPeer UserPeer.default
    error, blockHash, messageId }

theorem ofJson_serialize {m : BlockchainErrorMessageResponse}
    (h : m.type = .blockchainErrorResponse) : ofJson m.serialize = .ok m := by
  simp [ofJson, serialize, Message.ofJson_payload, Message.field_payload, Message.expectType, h,
    Json.field_cons, bind, Except.bind, pure, Except.pure]

theorem message_of_ofJson {j : Json} {m : BlockchainErrorMessageResponse} (h : ofJson j = .ok m) :
    Message.ofJson j = .ok m.toMessage := by
  refine Message.returns_base (·.toMessage) (fun base => ?_) m h
  repeat refine Returns.bind fun _ _ => ?_
  exact returns_pure rfl

end BlockchainErrorMessageResponse

/-! ## Connecting and disconnecting -/

/-- `message::ConnectionMessage`. -/
structure ConnectionMessage extends Message where
  lastBlockHash : String

namespace ConnectionMessage

def ofJson (jData : Json) (order : ArgumentOrder := .portFirst) :
    Except Exn ConnectionMessage := do
  let base ← Message.ofJson jData order
  base.expectType .connect
  let lastBlockHash ← (← (← jData.field "payload").field "lastBlockHash").getString
  return { toMessage := base, lastBlockHash }

def serialize (m : ConnectionMessage) : Json :=
  m.basicSerialization.set "payload" (.object [("lastBlockHash", .string m.lastBlockHash)])

def create (tick : Tick) (fromPeer toPeer : UserPeer) (lastHash : String) : ConnectionMessage :=
  { toMessage := Message.create tick .connect fromPeer toPeer, lastBlockHash := lastHash }

theorem ofJson_serialize {m : ConnectionMessage} (h : m.type = .connect)
    (order : ArgumentOrder := .portFirst) : ofJson m.serialize order = .ok m := by
  simp [ofJson, serialize, Message.ofJson_payload, Message.field_payload, Message.expectType, h,
    Json.field_cons, bind, Except.bind, pure, Except.pure]

theorem message_of_ofJson {j : Json} {m : ConnectionMessage} (h : ofJson j = .ok m) :
    Message.ofJson j = .ok m.toMessage := by
  refine Message.returns_base (·.toMessage) (fun base => ?_) m h
  repeat refine Returns.bind fun _ _ => ?_
  exact returns_pure rfl

end ConnectionMessage

/-- `message::ConnectionMessageResponse`. -/
structure ConnectionMessageResponse extends Message where
  peersToReceive : UInt32
  missingBlocksCount : UInt32

namespace ConnectionMessageResponse

def ofJson (jData : Json) (order : ArgumentOrder := .portFirst) :
    Except Exn ConnectionMessageResponse := do
  let base ← Message.ofJson jData order
  base.expectType .connectResponse
  let peersToReceive ← (← (← jData.field "payload").field "peersToReceive").getUInt32
  let missingBlocksCount ← (← (← jData.field "payload").field "missingBlocksCount").getUInt32
  return { toMessage := base, peersToReceive, missingBlocksCount }

def serialize (m : ConnectionMessageResponse) : Json :=
  m.basicSerialization.set "payload"
    (.object [("peersToReceive", .unsigned m.peersToReceive.toUInt64),
      ("missingBlocksCount", .unsigned m.missingBlocksCount.toUInt64)])

def create (tick : Tick) (fromPeer toPeer : UserPeer) (peersToReceive missingBlocksCount : UInt32) :
    ConnectionMessageResponse :=
  { toMessage := Message.create tick .connectResponse fromPeer toPeer
    peersToReceive, missingBlocksCount }

theorem ofJson_serialize {m : ConnectionMessageResponse} (h : m.type = .connectResponse)
    (order : ArgumentOrder := .portFirst) : ofJson m.serialize order = .ok m := by
  simp [ofJson, serialize, Message.ofJson_payload, Message.field_payload, Message.expectType, h,
    Json.field_cons, bind, Except.bind, pure, Except.pure]

end ConnectionMessageResponse

/-- The constructor of a message without a payload, `DisconnectionMessage` and its response. -/
def ofJsonBare (t : MessageType) (jData : Json) (order : ArgumentOrder := .portFirst) :
    Except Exn Message := do
  let base ← Message.ofJson jData order
  base.expectType t
  return base

theorem ofJsonBare_basicSerialization {m : Message} {t : MessageType} (h : m.type = t)
    {order : ArgumentOrder} : ofJsonBare t m.basicSerialization order = .ok m := by
  simp [ofJsonBare, Message.ofJson_basicSerialization, Message.expectType, h, bind, Except.bind,
    pure, Except.pure]

theorem message_of_ofJsonBare {t : MessageType} {j : Json} {order : ArgumentOrder} {m : Message}
    (h : ofJsonBare t j order = .ok m) : Message.ofJson j order = .ok m := by
  refine Message.returns_base id (fun base => ?_) m h
  repeat refine Returns.bind fun _ _ => ?_
  exact returns_pure rfl

/-- `DisconnectionMessage(const json&)`. -/
def DisconnectionMessage.ofJson (jData : Json) (order : ArgumentOrder := .portFirst) :
    Except Exn Message :=
  ofJsonBare .disconnect jData order

/-- `DisconnectionMessageResponse(const json&)`. -/
def DisconnectionMessageResponse.ofJson (jData : Json) (order : ArgumentOrder := .portFirst) :
    Except Exn Message :=
  ofJsonBare .disconnectResponse jData order

/-! ## Peer lists -/

/-- `message::PeerListMessage`. -/
structure PeerListMessage extends Message where
  start : UInt32
  count : UInt32

namespace PeerListMessage

def ofJson (jData : Json) (order : ArgumentOrder := .portFirst) :
    Except Exn PeerListMessage := do
  let base ← Message.ofJson jData order
  base.expectType .peerList
  let start ← (← (← jData.field "payload").field "start").getUInt32
  let count ← (← (← jData.field "payload").field "count").getUInt32
  return { toMessage := base, start, count }

def serialize (m : PeerListMessage) : Json :=
  m.basicSerialization.set "payload"
    (.object [("start", .unsigned m.start.toUInt64), ("count", .unsigned m.count.toUInt64)])

def create (tick : Tick) (fromPeer toPeer : UserPeer) (start count : UInt32) : PeerListMessage :=
  { toMessage := Message.create tick .peerList fromPeer toPeer, start, count }

theorem ofJson_serialize {m : PeerListMessage} (h : m.type = .peerList)
    (order : ArgumentOrder := .portFirst) : ofJson m.serialize order = .ok m := by
  simp [ofJson, serialize, Message.ofJson_payload, Message.field_payload, Message.expectType, h,
    Json.field_cons, bind, Except.bind, pure, Except.pure]

end PeerListMessage

/-- The elements of a payload array, decoded one by one. -/
def decodeAll {α : Type} (decode : Json → Except Exn α) : List Json → Except Exn (List α)
  | [] => .ok []
  | j :: js => do
      let x ← decode j
      let xs ← decodeAll decode js
      return x :: xs

theorem decodeAll_map {α : Type} {decode : Json → Except Exn α} {encode : α → Json}
    (h : ∀ x, decode (encode x) = .ok x) (xs : List α) :
    decodeAll decode (xs.map encode) = .ok xs := by
  induction xs with
  | nil => rfl
  | cons x xs ih => simp [decodeAll, h, ih, bind, Except.bind, pure, Except.pure]

/-- The array under a payload key; both list decoders throw the same text. -/
def payloadArray (jData : Json) (key : String) : Except Exn (List Json) := do
  let value ← (← jData.field "payload").field key
  match value.array? with
  | some xs => return xs
  | none => .error (.std "Peers field must be an array")

/-- `message::PeerListMessageResponse`. -/
structure PeerListMessageResponse extends Message where
  peers : List UserPeer

namespace PeerListMessageResponse

def ofJson (jData : Json) (order : ArgumentOrder := .portFirst) :
    Except Exn PeerListMessageResponse := do
  let base ← Message.ofJson jData order
  base.expectType .peerListResponse
  let peers ← decodeAll (UserPeer.ofJson · order) (← payloadArray jData "peers")
  return { toMessage := base, peers }

def serialize (m : PeerListMessageResponse) : Json :=
  m.basicSerialization.set "payload" (.object [("peers", .array (m.peers.map UserPeer.toJson))])

/-- `create` swaps the two peers it is given. -/
def create (tick : Tick) (fromPeer toPeer : UserPeer) (peers : List UserPeer) :
    PeerListMessageResponse :=
  { toMessage := Message.create tick .peerListResponse toPeer fromPeer, peers }

theorem ofJson_serialize {m : PeerListMessageResponse} (h : m.type = .peerListResponse)
    (order : ArgumentOrder := .portFirst) : ofJson m.serialize order = .ok m := by
  have hpeers : decodeAll (UserPeer.ofJson · order) (m.peers.map UserPeer.toJson) = .ok m.peers :=
    decodeAll_map (fun p => UserPeer.ofJson_toJson p order) m.peers
  simp [ofJson, serialize, payloadArray, Message.ofJson_payload, Message.field_payload,
    Message.expectType, h, hpeers, Json.array?, Json.field_cons, bind, Except.bind, pure,
    Except.pure]

end PeerListMessageResponse

/-! ## Block ranges -/

/-- `message::BlockRangeMessage`. -/
structure BlockRangeMessage extends Message where
  start : UInt32
  count : UInt32
  lastHash : String

namespace BlockRangeMessage

/-- The constructor reads `start` as a `uint64_t` and keeps its low 32 bits. -/
def ofJson (jData : Json) (order : ArgumentOrder := .portFirst) :
    Except Exn BlockRangeMessage := do
  let base ← Message.ofJson jData order
  base.expectType .blockRangeRequest
  let start ← (← (← jData.field "payload").field "start").getUInt64
  let count ← (← (← jData.field "payload").field "count").getUInt32
  let lastHash ← (← (← jData.field "payload").field "lastHash").getString
  return { toMessage := base, start := start.toUInt32, count, lastHash }

def serialize (m : BlockRangeMessage) : Json :=
  m.basicSerialization.set "payload"
    (.object [("start", .unsigned m.start.toUInt64), ("count", .unsigned m.count.toUInt64),
      ("lastHash", .string m.lastHash)])

def create (tick : Tick) (fromPeer toPeer : UserPeer) (start count : UInt32) (lastHash : String) :
    BlockRangeMessage :=
  { toMessage := Message.create tick .blockRangeRequest fromPeer toPeer, start, count, lastHash }

theorem ofJson_serialize {m : BlockRangeMessage} (h : m.type = .blockRangeRequest)
    (order : ArgumentOrder := .portFirst) : ofJson m.serialize order = .ok m := by
  simp [ofJson, serialize, Message.ofJson_payload, Message.field_payload, Message.expectType, h,
    Json.field_cons, bind, Except.bind, pure, Except.pure]

end BlockRangeMessage

/-- `message::BlockRangeMessageResponse`. -/
structure BlockRangeMessageResponse extends Message where
  blocks : List Block

namespace BlockRangeMessageResponse

def ofJson (jData : Json) (order : ArgumentOrder := .portFirst) :
    Except Exn BlockRangeMessageResponse := do
  let base ← Message.ofJson jData order
  base.expectType .blockRangeResponse
  let blocks ← decodeAll Block.ofJson (← payloadArray jData "blocks")
  return { toMessage := base, blocks }

def serialize (m : BlockRangeMessageResponse) : Json :=
  m.basicSerialization.set "payload" (.object [("blocks", .array (m.blocks.map Block.toJson))])

def create (tick : Tick) (fromPeer toPeer : UserPeer) (blocks : List Block) :
    BlockRangeMessageResponse :=
  { toMessage := Message.create tick .blockRangeResponse fromPeer toPeer, blocks }

theorem ofJson_serialize {m : BlockRangeMessageResponse} (h : m.type = .blockRangeResponse)
    (order : ArgumentOrder := .portFirst) : ofJson m.serialize order = .ok m := by
  have hblocks : decodeAll Block.ofJson (m.blocks.map Block.toJson) = .ok m.blocks :=
    decodeAll_map Block.ofJson_toJson m.blocks
  simp [ofJson, serialize, payloadArray, Message.ofJson_payload, Message.field_payload,
    Message.expectType, h, hblocks, Json.array?, Json.field_cons, bind, Except.bind, pure,
    Except.pure]

theorem message_of_ofJson {j : Json} {m : BlockRangeMessageResponse} (h : ofJson j = .ok m) :
    Message.ofJson j = .ok m.toMessage := by
  refine Message.returns_base (·.toMessage) (fun base => ?_) m h
  repeat refine Returns.bind fun _ _ => ?_
  exact returns_pure rfl

end BlockRangeMessageResponse

end Messaging
end DChat
