import DChat.Dump
import DChat.Requests
import DChat.Wire

/-!
# Transport — what is let out and what is received

A text goes out with one `send` and is read with one `recv` into a buffer of `BUFFER_SIZE` bytes,
whose last byte is kept for a NUL.  Only the two functions that send a message look at the length
before, and they let `BUFFER_SIZE` bytes pass.

Texts are bytes here; the nodes of `Network` exchange the values themselves, and `received` there
says the same about the length of their texts.
-/

namespace DChat

open Utils Crypto Peer Messaging Blockchain Chat AtomicProg Fallible

/-! ## Values that are sent -/

namespace Json

/-- An object whose text has no NUL. -/
def Sendable (j : Json) : Prop := ∃ kvs, j = .object kvs ∧ PlainMembers kvs

theorem plainElements_map {α : Type} {encode : α → Json} (h : ∀ x, PlainFloats (encode x))
    (xs : List α) : PlainElements (xs.map encode) := by
  induction xs with
  | nil => trivial
  | cons x xs ih => exact ⟨h x, ih⟩

theorem sendable_empty : (Json.object []).Sendable := ⟨[], rfl, trivial⟩

end Json

open Json

theorem Peer.UserPeer.plainFloats_toJson (p : UserPeer) : p.toJson.PlainFloats :=
  ⟨trivial, trivial, trivial, trivial⟩

theorem Blockchain.Block.sendable_toJson (b : Block) : b.toJson.Sendable :=
  ⟨_, rfl, trivial, trivial, trivial, trivial, trivial, trivial, trivial⟩

theorem Blockchain.Block.plainFloats_toJson (b : Block) : b.toJson.PlainFloats :=
  ⟨trivial, trivial, trivial, trivial, trivial, trivial, trivial⟩

namespace Messaging

theorem Message.sendable_basicSerialization (m : Message) : m.basicSerialization.Sendable :=
  ⟨_, rfl, trivial, trivial, m.fromPeer.plainFloats_toJson, m.toPeer.plainFloats_toJson, trivial,
    trivial⟩

theorem Message.sendable_payload (m : Message) {payload : Json} (h : payload.PlainFloats) :
    (m.basicSerialization.set "payload" payload).Sendable :=
  ⟨_, rfl, trivial, trivial, m.fromPeer.plainFloats_toJson, m.toPeer.plainFloats_toJson, trivial, h,
    trivial⟩

theorem TextMessage.sendable_envelope (m : SecretMessage) (cipher signature : String) :
    (envelope m cipher signature).Sendable :=
  ⟨_, rfl, trivial, trivial, m.fromPeer.plainFloats_toJson, m.toPeer.plainFloats_toJson, trivial,
    trivial, ⟨trivial, trivial⟩, trivial, trivial⟩

theorem BlockchainErrorMessageResponse.sendable_serialize (m : BlockchainErrorMessageResponse) :
    m.serialize.Sendable :=
  Message.sendable_payload m.toMessage ⟨trivial, trivial, trivial, trivial⟩

theorem PeerListMessageResponse.sendable_serialize (m : PeerListMessageResponse) :
    m.serialize.Sendable :=
  Message.sendable_payload m.toMessage ⟨plainElements_map UserPeer.plainFloats_toJson _, trivial⟩

theorem BlockRangeMessageResponse.sendable_serialize (m : BlockRangeMessageResponse) :
    m.serialize.Sendable :=
  Message.sendable_payload m.toMessage ⟨plainElements_map Block.plainFloats_toJson _, trivial⟩

theorem PlainMessage.sendable_serialize (m : PlainMessage) : m.serialize.Sendable := by
  cases m with
  | connection h lastBlockHash => exact Message.sendable_payload _ ⟨trivial, trivial⟩
  | connectionResponse h peersToReceive missingBlocksCount =>
      exact Message.sendable_payload _ ⟨trivial, trivial, trivial⟩
  | peerList h start count => exact Message.sendable_payload _ ⟨trivial, trivial, trivial⟩
  | peerListResponse h peers => exact PeerListMessageResponse.sendable_serialize _
  | blockRange h start count lastHash =>
      exact Message.sendable_payload _ ⟨trivial, trivial, trivial, trivial⟩
  | blockRangeResponse h blocks => exact BlockRangeMessageResponse.sendable_serialize _
  | disconnection h => exact Message.sendable_basicSerialization _
  | disconnectionResponse h => exact Message.sendable_basicSerialization _
  | error h what => exact Message.sendable_payload _ ⟨trivial, trivial⟩
  | blockchainError id fromPeer timestamp what blockHash messageId =>
      exact BlockchainErrorMessageResponse.sendable_serialize _
  | textResponse h => exact Message.sendable_basicSerialization _

/-! ## Their lengths -/

theorem Message.dumpLen_basicSerialization (m : Message) :
    m.basicSerialization.dumpLen = stringLen m.id + stringLen m.type.toString +
      m.fromPeer.toJson.dumpLen + m.toPeer.toJson.dumpLen +
      (Nat.toDigits 10 m.timestamp.toNat).length + 42 := by
  have hkeys : stringLen "id" = 4 ∧ stringLen "type" = 6 ∧ stringLen "from" = 6 ∧
      stringLen "to" = 4 ∧ stringLen "timestamp" = 11 := by decide
  rcases hkeys with ⟨h₁, h₂, h₃, h₄, h₅⟩
  simp only [basicSerialization, dumpLen, membersLen, h₁, h₂, h₃, h₄, h₅, List.length_cons,
    List.length_nil]
  omega

theorem Message.dumpLen_payload (m : Message) (payload : Json) :
    (m.basicSerialization.set "payload" payload).dumpLen =
      m.basicSerialization.dumpLen + payload.dumpLen + 11 := by
  have hkey : stringLen "payload" = 9 := by decide
  have hobject : m.basicSerialization.set "payload" payload = .object [("id", .string m.id),
      ("type", .string m.type.toString), ("from", m.fromPeer.toJson), ("to", m.toPeer.toJson),
      ("timestamp", .unsigned m.timestamp), ("payload", payload)] := rfl
  rw [hobject, basicSerialization]
  simp only [dumpLen, membersLen, hkey, List.length_cons, List.length_nil]
  omega

theorem elementsLen_map {α : Type} (encode : α → Json) (xs : List α) :
    elementsLen (xs.map encode) = (xs.map fun x => (encode x).dumpLen).sum := by
  induction xs with
  | nil => rfl
  | cons x xs ih => simp only [List.map_cons, elementsLen, List.sum_cons, ih]

/-- A page of peers grows with every name in it. -/
theorem PeerListMessageResponse.dumpLen_serialize (m : PeerListMessageResponse) :
    m.serialize.dumpLen = m.basicSerialization.dumpLen +
      (m.peers.map fun p => p.toJson.dumpLen).sum + (m.peers.length - 1) + 23 := by
  have hkey : stringLen "peers" = 7 := by decide
  rw [serialize, Message.dumpLen_payload]
  simp only [dumpLen, membersLen, elementsLen_map, hkey, List.length_map, List.length_cons,
    List.length_nil]
  omega

end Messaging

namespace Network

/-! ## Sockets -/

/-- One `recv`: as many bytes of what was sent as there is room for. -/
def recv (capacity : Nat) (sent : Bytes) : Bytes := sent.take capacity

/-- What `listenMessages` gives to its handler, which takes the buffer and the number of bytes.
A connection on which nothing comes is closed. -/
def SocketServer.receive (sent : Bytes) : Option Bytes :=
  match recv (bufferSize - 1) sent with
  | [] => none
  | message => some message

/-- `SocketClient::receiveMessage`, a string made of the buffer up to the first NUL. -/
def SocketClient.receiveMessage (sent : Bytes) : Bytes := cBytes (recv (bufferSize - 1) sent)

theorem recv_eq_self_iff {capacity : Nat} {sent : Bytes} :
    recv capacity sent = sent ↔ sent.length ≤ capacity := List.take_eq_self_iff sent

theorem SocketServer.receive_eq_some_iff {sent : Bytes} (hne : sent ≠ []) :
    receive sent = some sent ↔ sent.length ≤ bufferSize - 1 := by
  rw [← recv_eq_self_iff, receive]
  split
  · rename_i hnil
    rw [hnil]
    exact iff_of_false (by simp) hne.symm
  · exact Option.some_inj

theorem cBytes_of_zero_notMem {b : Bytes} (h : (0 : UInt8) ∉ b) : cBytes b = b := by
  rw [cBytes, List.takeWhile_eq_self_iff]
  intro x hx
  simpa using fun heq : x = 0 => h (heq ▸ hx)

theorem SocketClient.receiveMessage_eq_iff {sent : Bytes} (hnul : (0 : UInt8) ∉ sent) :
    receiveMessage sent = sent ↔ sent.length ≤ bufferSize - 1 := by
  have hrecv : (0 : UInt8) ∉ recv (bufferSize - 1) sent := fun h => hnul (List.mem_of_mem_take h)
  rw [receiveMessage, cBytes_of_zero_notMem hrecv, recv_eq_self_iff]

/-- A server gets the text of a value whole, or does not, by its length alone. -/
theorem SocketServer.receive_dump_iff {j : Json} (h : j.Sendable) :
    receive j.dump = some j.dump ↔ j.dump.length ≤ bufferSize - 1 := by
  rcases h with ⟨kvs, rfl, _⟩
  apply receive_eq_some_iff
  rw [dump]
  exact List.cons_ne_nil _ _

/-- And so does a client, since there is no NUL in it. -/
theorem SocketClient.receiveMessage_dump_iff {j : Json} (h : j.Sendable) :
    receiveMessage j.dump = j.dump ↔ j.dump.length ≤ bufferSize - 1 := by
  rcases h with ⟨kvs, rfl, hplain⟩
  exact receiveMessage_eq_iff (zero_notMem_dump _ hplain)

/-- The values that `received` passes on are those whose texts arrive. -/
theorem received_eq_some_iff {j : Json} (h : j.Sendable) :
    received j = some j ↔
      SocketServer.receive j.dump = some j.dump ∧ SocketClient.receiveMessage j.dump = j.dump := by
  rw [SocketServer.receive_dump_iff h, SocketClient.receiveMessage_dump_iff h, length_dump,
    received]
  simp

/-! ## What is let out -/

/-- The texts that a client hands to a socket. -/
inductive Requested (E : Env) : Bytes → Prop
  /-- `sendMessage`, after its check. -/
  | message {m : PlainMessage} (h : ¬ m.serialize.dump.length > bufferSize) :
      Requested E m.serialize.dump
  /-- `sendSecretMessage`, after its check. -/
  | secretMessage {out : TCPClient.Outside} {sender : Node} {message : TextMessage} {block : Block}
      {jMessage : Json} (h : TCPClient.prepare E out sender message = .ok (block, jMessage)) :
      Requested E jMessage.dump
  /-- The callback of `storeAndBroadcastBlock`. -/
  | block (block : Block) : Requested E block.toJson.dump
  /-- The error that follows a block that was not stored. -/
  | rollback (out : TCPClient.Outside) (message : TextMessage) (block : Block) :
      Requested E (TCPClient.errorMessage out message block).serialize.dump

/-- The texts that a server answers with. -/
inductive Answered (E : Env) : Bytes → Prop
  | message {n : Node} {tick : Tick} {jMessage response : Json}
      (h : (ChatService.handleIncomingMessage E n tick jMessage).2 = .ok response) :
      Answered E response.dump
  /-- Other connections may move the chain while the block is looked at. -/
  | block {me : UserPeer} {now : ClockReading} {tick : Tick} {jData response : Json}
      (h : (BlockchainService.onIncomingBlock E me now tick jData).CanReturn response) :
      Answered E response.dump

end Network

/-! ## Every answer is an object without NULs -/

namespace Chat

theorem Request.sendable_errorLiteral (error : String) : (errorLiteral error).Sendable :=
  ⟨_, rfl, trivial, trivial, trivial⟩

theorem Request.sendable_handle (request : Request) (n : Node) (tick : Tick) (jMessage : Json) :
    (request.handle n tick jMessage).2.Sendable := by
  cases request with
  | connect message => exact Message.sendable_payload _ ⟨trivial, trivial, trivial⟩
  | text message => exact Message.sendable_basicSerialization _
  | peerList message => exact PeerListMessageResponse.sendable_serialize _
  | blockRange message => exact BlockRangeMessageResponse.sendable_serialize _
  | disconnect message => exact Message.sendable_basicSerialization _
  | blockchainError message => exact sendable_empty
  | unknown => exact sendable_errorLiteral _

namespace ChatService

theorem sendable_handleIncomingErrorMessage {n : Node} {tick : Tick} {jData response : Json}
    {error : String} (h : handleIncomingErrorMessage n tick jData error = .ok response) :
    response.Sendable := by
  have hliteral : (Request.errorLiteral "Invalid request").Sendable :=
    Request.sendable_errorLiteral _
  rw [handleIncomingErrorMessage] at h
  split_ifs at h
  · rcases bind_eq_ok.1 h with ⟨jFrom, _, h⟩
    split_ifs at h
    · rcases bind_pure_eq_ok.1 h with ⟨toPeer, _, rfl⟩
      exact Message.sendable_payload _ ⟨trivial, trivial⟩
    · exact Except.ok.inj h ▸ hliteral
  · exact Except.ok.inj h ▸ hliteral

theorem sendable_handleIncomingMessage {E : Env} {n : Node} {tick : Tick}
    {jMessage response : Json}
    (h : (handleIncomingMessage E n tick jMessage).2 = .ok response) : response.Sendable := by
  rw [Request.handleIncomingMessage_eq] at h
  cases hdecode : Request.decode (Request.decodeText E n.config.privateKey) jMessage with
  | ok request =>
      rw [hdecode] at h
      exact Except.ok.inj h ▸ request.sendable_handle n tick jMessage
  | error e =>
      rw [hdecode] at h
      cases e with
      | std what => exact sendable_handleIncomingErrorMessage h
      | absentKey key => exact Except.ok.inj h ▸ Request.sendable_errorLiteral _
      | json what => exact Except.ok.inj h ▸ Request.sendable_errorLiteral _

end ChatService
end Chat

namespace Blockchain.BlockchainService

/-- Whatever the chain answers, the response is `{}` or a refusal. -/
theorem sendable_onIncomingBlock {E : Env} {me : UserPeer} {now : ClockReading} {tick : Tick}
    {jData response : Json} (h : (onIncomingBlock E me now tick jData).CanReturn response) :
    response.Sendable := by
  rw [onIncomingBlock] at h
  cases hblock : Block.ofJson jData with
  | error e =>
      rw [hblock] at h
      exact (show refusal me tick e.what "-1" = response from h) ▸
        BlockchainErrorMessageResponse.sendable_serialize _
  | ok block =>
      rw [hblock] at h
      rcases Prog.canReturn_bind.1 h with ⟨verdict, _, h⟩
      -- a key that does not decode, no error, or an error of the validation
      rcases verdict with e | _ | error
      · exact (show refusal me tick e.what "-1" = response from h) ▸
          BlockchainErrorMessageResponse.sendable_serialize _
      · rcases Prog.canReturn_bind.1 h with ⟨_, _, h⟩
        exact (show Json.object [] = response from h) ▸ sendable_empty
      · exact (show refusal me tick error block.hash = response from h) ▸
          BlockchainErrorMessageResponse.sendable_serialize _

end Blockchain.BlockchainService

namespace Network

variable {E : Env}

/-- What a server responds with is one of the answers. -/
theorem answered_of_serve {n : Node} {visit : Visit} {jData response : Json}
    (h : (TCPServer.serve E n visit jData).2 = some response) : Answered E response.dump := by
  cases hkind : jData.contains "previousHash" && jData.contains "payloadHash" with
  | true =>
      rw [TCPServer.serve_of_block n visit hkind] at h
      exact .block (Option.some.inj h ▸ Prog.canReturn_run ChainOp.exec _ n.chain)
  | false =>
      rw [TCPServer.serve_of_message n visit hkind] at h
      rcases hresult : (ChatService.handleIncomingMessage E n visit.tick jData).2 with e | answer
      · simp [hresult, Except.toOption] at h
      · have heq : answer = response := by simpa [hresult, Except.toOption] using h
        exact .message (heq ▸ hresult)

theorem sendable_of_requested {sent : Bytes} (h : Requested E sent) :
    ∃ j : Json, j.Sendable ∧ sent = j.dump := by
  cases h with
  | message h => exact ⟨_, PlainMessage.sendable_serialize _, rfl⟩
  | secretMessage h =>
      rcases TextMessage.serialize_eq_ok (TCPClient.prepare_eq_ok.1 h).2.1 with
        ⟨_, _, _, _, _, _, _, _, rfl⟩
      exact ⟨_, TextMessage.sendable_envelope _ _ _, rfl⟩
  | block block => exact ⟨_, block.sendable_toJson, rfl⟩
  | rollback out message block =>
      exact ⟨_, BlockchainErrorMessageResponse.sendable_serialize _, rfl⟩

theorem sendable_of_answered {sent : Bytes} (h : Answered E sent) :
    ∃ j : Json, j.Sendable ∧ sent = j.dump := by
  cases h with
  | message h => exact ⟨_, ChatService.sendable_handleIncomingMessage h, rfl⟩
  | block h => exact ⟨_, BlockchainService.sendable_onIncomingBlock h, rfl⟩

/-- What is let out is received whole if and only if it leaves the last byte of the buffer free. -/
theorem received_whole_iff (E : Env) :
    (∀ sent, Requested E sent →
      (SocketServer.receive sent = some sent ↔ sent.length ≤ bufferSize - 1)) ∧
    ∀ sent, Answered E sent →
      (SocketClient.receiveMessage sent = sent ↔ sent.length ≤ bufferSize - 1) := by
  constructor
  · intro sent h
    rcases sendable_of_requested h with ⟨j, hj, rfl⟩
    exact SocketServer.receive_dump_iff hj
  · intro sent h
    rcases sendable_of_answered h with ⟨j, hj, rfl⟩
    exact SocketClient.receiveMessage_dump_iff hj

open BlockchainService Request SmallNet KeyedTable

theorem handleIncomingMessage_null (n : Node) (tick : Tick) :
    (ChatService.handleIncomingMessage testEnv n tick .null).2 =
      .ok (errorLiteral "Invalid data format") := rfl

/-- With a block of the tests, and the answer to a text that is no object. -/
theorem received_whole_iff_child :
    (SocketServer.receive FirstBlock.child.toJson.dump = some FirstBlock.child.toJson.dump ↔
      FirstBlock.child.toJson.dump.length ≤ bufferSize - 1) ∧
    (SocketClient.receiveMessage (errorLiteral "Invalid data format").dump =
        (errorLiteral "Invalid data format").dump ↔
      (errorLiteral "Invalid data format").dump.length ≤ bufferSize - 1) :=
  ⟨(received_whole_iff testEnv).1 _ (.block FirstBlock.child),
    (received_whole_iff testEnv).2 _ (.message (handleIncomingMessage_null
      (node FirstBlock.config [] Table.empty) (FirstBlock.tick "m1")))⟩

/-! ## Texts that are cut -/

/-- A peer with a key of any length. -/
def longPeer (k : Nat) : UserPeer where
  host := "127.0.0.1"
  port := 8002
  publicKey := String.ofList (List.replicate k 'k')

theorem dumpLen_longPeer (k : Nat) : (longPeer k).toJson.dumpLen = k + 48 := by
  have hplain : ∀ c ∈ (longPeer k).publicKey.toList, escapedLen c = 1 := by
    intro c hc
    rw [longPeer, String.toList_ofList] at hc
    rw [List.eq_of_mem_replicate hc]
    decide
  have hkey : stringLen (longPeer k).publicKey = k + 2 := by
    rw [stringLen_of_plain hplain, longPeer, String.toList_ofList, List.length_replicate]
  have hhost : stringLen (longPeer k).host = 11 := (by decide : stringLen "127.0.0.1" = 11)
  have hport : (Nat.toDigits 10 (longPeer k).port.toNat).length = 4 :=
    (by decide : (Nat.toDigits 10 (8002 : UInt16).toNat).length = 4)
  rw [UserPeer.dumpLen_toJson, hkey, hhost, hport]
  omega

/-- The message that `disconnect` sends to it. -/
def farewell (k : Nat) : PlainMessage :=
  .disconnection ⟨"1", ⟨⟨"127.0.0.1", 8001⟩, "key"⟩, longPeer k, 7⟩

theorem length_farewell (k : Nat) : (farewell k).serialize.dump.length = k + 157 := by
  have hsender : (UserPeer.toJson ⟨⟨"127.0.0.1", 8001⟩, "key"⟩).dumpLen = 51 := by decide
  have htext : stringLen "1" = 3 ∧ stringLen MessageType.disconnect.toString = 12 ∧
      (Nat.toDigits 10 (7 : UInt64).toNat).length = 1 := by decide
  rcases htext with ⟨hid, htype, htime⟩
  have hheader := Message.dumpLen_basicSerialization
    (Header.typed ⟨"1", ⟨⟨"127.0.0.1", 8001⟩, "key"⟩, longPeer k, 7⟩ .disconnect)
  simp only [Header.typed, dumpLen_longPeer, hsender, hid, htype, htime] at hheader
  rw [length_dump]
  exact hheader.trans (by omega)

/-- The first request for peers of another node. -/
def pageRequest : PeerListMessage :=
  .create (FirstBlock.tick "m1") FirstBlock.rivalConfig.me FirstBlock.config.me 0 12

/-- What a node that knows the peer answers. -/
def page (k : Nat) : PeerListMessageResponse :=
  .create (FirstBlock.tick "r1") FirstBlock.config.me FirstBlock.rivalConfig.me [longPeer k]

theorem lt_length_page (k : Nat) : k < (page k).serialize.dump.length := by
  rw [length_dump, PeerListMessageResponse.dumpLen_serialize]
  simp only [page, PeerListMessageResponse.create, List.map_cons, List.map_nil, List.sum_cons,
    List.sum_nil, dumpLen_longPeer]
  omega

theorem handleIncomingMessage_pageRequest (k : Nat)
    (hother : longPeer k ≠ FirstBlock.rivalConfig.me) :
    (ChatService.handleIncomingMessage testEnv (node FirstBlock.config [longPeer k] Table.empty)
      (FirstBlock.tick "r1") pageRequest.serialize).2 = .ok (page k).serialize := by
  have hpeers : (((([longPeer k] : List UserPeer).take 12).drop 0).filter
      (· ≠ FirstBlock.rivalConfig.me)) = [longPeer k] := by
    simp [hother]
  rw [handleIncomingMessage_eq, decode_peerList rfl]
  exact congrArg (fun peers => Except.ok (PeerListMessageResponse.create (FirstBlock.tick "r1")
    FirstBlock.config.me FirstBlock.rivalConfig.me peers).serialize) hpeers

/-- A message of `BUFFER_SIZE` bytes passes the check and loses its last byte, and an answer with a
long key is not checked at all. -/
theorem full_buffer_cut :
    (∃ m : PlainMessage, Requested testEnv m.serialize.dump ∧
      m.serialize.dump.length = bufferSize ∧
      SocketServer.receive m.serialize.dump ≠ some m.serialize.dump) ∧
    ∃ n request response, (ChatService.handleIncomingMessage testEnv n (FirstBlock.tick "r1")
        request).2 = .ok response ∧ Answered testEnv response.dump ∧
      SocketClient.receiveMessage response.dump ≠ response.dump := by
  constructor
  · -- one byte more than `recv` has room for
    have hlength : (farewell 32611).serialize.dump.length = bufferSize := length_farewell 32611
    have hsent : Requested testEnv (farewell 32611).serialize.dump :=
      .message (by rw [hlength]; exact Nat.lt_irrefl _)
    refine ⟨farewell 32611, hsent, hlength, fun hwhole => ?_⟩
    have hfits := (SocketServer.receive_dump_iff (farewell 32611).sendable_serialize).1 hwhole
    rw [hlength] at hfits
    exact absurd hfits (by decide)
  · -- a page with one peer, whose key alone fills the buffer
    have hother : longPeer bufferSize ≠ FirstBlock.rivalConfig.me := by
      intro heq
      have hlen := congrArg (fun p : UserPeer => p.toJson.dumpLen) heq
      simp only [dumpLen_longPeer] at hlen
      exact absurd hlen (by decide +kernel)
    have hresponse := handleIncomingMessage_pageRequest bufferSize hother
    refine ⟨_, _, _, hresponse, .message hresponse, fun hwhole => ?_⟩
    have hfits := (SocketClient.receiveMessage_dump_iff
      (ChatService.sendable_handleIncomingMessage hresponse)).1 hwhole
    have hlong := lt_length_page bufferSize
    omega

end Network
end DChat
