import DChat.ChatApplication
import DChat.Timestamp
import DChat.ChatService
import DChat.ChainValidity
import Mathlib.Data.List.Forall2

/-!
# ChatHistory — what `/chat` prints

`/chat` looks up the key of the peer, reads the messages of both directions, checks them against
the chain and prints a line for each, with a mark when the check found something wrong.

The check works on messages and the mark on ids.  A line without a mark stands for a message whose
row and JSON name one block of the chain, made by the sender of the message, at its time, from its
text.  The lines can be told apart as long as no text has a line break of its own.

What the services print on the way is left out.
-/

namespace DChat
namespace ChatApplication

open Utils Crypto Peer Messaging Blockchain Chat

/-! ## The command -/

/-- `std::to_string`. -/
def decimal (n : Nat) : Bytes := bytesOf (toString n)

/-- `host + ":" + std::to_string(port)`. -/
def hostPortText (host : Bytes) (port : UInt16) : Bytes := host ++ bytesOf ":" ++ decimal port.toNat

/-- `PeerDB::findPublicKeyByUserHost` with a host that was typed in. -/
def findPublicKey (t : PeerTable) (host : Bytes) (port : UInt16) : Option String :=
  match t.data.find? fun r => bytesOf r.host.text = cBytes host ∧ r.port = port with
  | some r => if r.publicKey.text = "" then none else some r.publicKey.text
  | none => none

/-- A line of the history. -/
structure Entry where
  timestamp : UInt64
  /-- The message is an own one. -/
  own : Bool
  message : Bytes
  invalid : Bool
  deriving DecidableEq

/-- What `/chat` finds. -/
inductive ChatResult
  | usage
  | noColon
  | noNumber
  | noPeer (host : Bytes) (port : UInt16)
  | noMessages (host : Bytes) (port : UInt16)
  | history (host : Bytes) (port : UInt16) (invalidIds : List String) (entries : List Entry)
  /-- `std::stoi` or the check of the messages has thrown. -/
  | failed (e : Exn)
  deriving DecidableEq

/-- The entry of a message. -/
def entry (myPublicKey : String) (invalidIds : List String) (message : TextMessage) : Entry where
  timestamp := message.timestamp
  own := message.fromPeer.publicKey = myPublicKey
  message := message.message
  invalid := message.id ∈ invalidIds

variable (E : Env)

/-- The messages and their check, once the address is known. -/
def chatWith (n : Node) (host : Bytes) (port : UInt16) : ChatResult :=
  match findPublicKey n.chatPeers host port with
  | none => .noPeer host port
  | some peerPublicKey =>
      let messages := MessageService.findChatMessages E n.config.privateKey n.messages
        n.config.publicKey peerPublicKey
      if messages = [] then
        .noMessages host port
      else
        match MessageService.findInvalidChatMessageIDs E n.messages n.chain messages with
        | (_, some e) => .failed e
        | (invalidIds, none) =>
            .history host port invalidIds (messages.map (entry n.config.publicKey invalidIds))

/-- `ChatApplication::handleChatCommand`, up to what it prints. -/
def handleChatCommand (n : Node) (args : Bytes) : ChatResult :=
  let hostPort := (args.dropWhile isBlank).rdropWhile isBlank
  if hostPort = [] then
    .usage
  else
    match find hostPort 58 0 with
    | none => .noColon
    | some colonPos =>
        let host := hostPort.take colonPos
        let portStr := hostPort.drop (colonPos + 1)
        if portStr = [] ∨ ¬ portStr.all isDigit then
          .noNumber
        else
          match stoi portStr with
          | .error e => .failed e
          | .ok port => chatWith E n host (UInt16.ofInt port)

variable (clock : LocalClock)

/-- The time and the sender of an entry. -/
def Entry.heading (e : Entry) : Bytes :=
  bytesOf "[" ++ bytesOf (timestampToString clock e.timestamp) ++ bytesOf "] " ++
    bytesOf (if e.own then "YOU" else "PEER") ++ bytesOf ": "

/-- The line of an entry, without its end. -/
def Entry.line (e : Entry) : Bytes :=
  e.heading clock ++ e.message ++ bytesOf (if e.invalid then " [INVALID]" else "")

/-- The first line of a history, without its end. -/
def titleLine (host : Bytes) (port : UInt16) : Bytes :=
  bytesOf "[CHAT HISTORY with " ++ hostPortText host port ++ bytesOf "]"

/-- The second one. -/
def countLine (total invalid : Nat) : Bytes :=
  bytesOf "Total messages: " ++ decimal total ++
    if invalid = 0 then [] else bytesOf " (" ++ decimal invalid ++ bytesOf " invalid)"

/-- What `ChatApplication::handleChatCommand` prints. -/
def ChatResult.print : ChatResult → Bytes
  | .usage =>
      bytesOf "[ERROR] Please specify a peer host:port. Usage: /chat <host:port>\n"
  | .noColon => bytesOf "[ERROR] Invalid host:port format. Usage: /chat <host:port>\n"
  | .noNumber => bytesOf "[ERROR] Port must be a number. Usage: /chat <host:port>\n"
  | .noPeer host port =>
      bytesOf "[ERROR] No peer found with address " ++ hostPortText host port ++
        bytesOf ". Try /chats to see available chats.\n"
  | .noMessages host port =>
      bytesOf "[INFO] No messages found with peer at " ++ hostPortText host port ++ bytesOf "\n"
  | .history host port invalidIds entries =>
      (titleLine host port :: countLine entries.length invalidIds.length ::
        entries.map (Entry.line clock)).flatMap fun line => line ++ bytesOf "\n"
  | .failed e => bytesOf "[ERROR] Failed to retrieve chat history: " ++ bytesOf e.what ++
      bytesOf "\n"

/-! ## The address as it is typed -/

section Typed

variable {E}

/-- The digits of a number. -/
theorem decimal_eq (n : Nat) :
    (∀ d ∈ Nat.toDigits 10 n, 48 ≤ d.toNat ∧ d.toNat ≤ 57) ∧
      decimal n = (Nat.toDigits 10 n).map fun d => UInt8.ofNat d.toNat := by
  have hdigit : ∀ d ∈ Nat.toDigits 10 n, 48 ≤ d.toNat ∧ d.toNat ≤ 57 := by
    intro d hd
    have hd' := Nat.isDigit_of_mem_toDigits (by decide) (by decide) hd
    simpa [Char.isDigit, UInt32.le_iff_toNat_le] using hd'
  exact ⟨hdigit, bytesOf_ofList_ascii fun d hd => (hdigit d hd).2.trans (by decide)⟩

theorem toNat_digit {d : Char} (h : 48 ≤ d.toNat ∧ d.toNat ≤ 57) :
    (UInt8.ofNat d.toNat).toNat = d.toNat := by
  rw [UInt8.toNat_ofNat']
  change d.toNat % 256 = d.toNat
  omega

theorem isDigit_of_mem_decimal {n : Nat} {c : UInt8} (h : c ∈ decimal n) : isDigit c = true := by
  obtain ⟨hdigit, htext⟩ := decimal_eq n
  rw [htext, List.mem_map] at h
  obtain ⟨d, hd, rfl⟩ := h
  have hrange := hdigit d hd
  have hbyte := toNat_digit hrange
  simp only [isDigit, Bool.and_eq_true, decide_eq_true_eq, UInt8.le_iff_toNat_le, hbyte]
  exact hrange

theorem decimal_ne_nil (n : Nat) : decimal n ≠ [] := by
  rw [(decimal_eq n).2]
  exact fun h => Nat.toDigits_ne_nil (List.map_eq_nil_iff.1 h)

/-- What is written is read again. -/
theorem decimalValue_decimal (n : Nat) : decimalValue (decimal n) = n := by
  obtain ⟨hdigit, htext⟩ := decimal_eq n
  have hfold : ∀ (ds : List Char) (acc : Nat), (∀ d ∈ ds, 48 ≤ d.toNat ∧ d.toNat ≤ 57) →
      (ds.map fun d => UInt8.ofNat d.toNat).foldl (fun acc d => 10 * acc + (d.toNat - 48)) acc =
        Nat.ofDigitChars 10 ds acc := by
    intro ds
    induction ds with
    | nil => exact fun acc _ => rfl
    | cons d ds ih =>
        intro acc hds
        rw [List.forall_mem_cons] at hds
        rw [List.map_cons, List.foldl_cons, Nat.ofDigitChars_cons, toNat_digit hds.1]
        exact ih _ hds.2
  rw [decimalValue, htext, hfold _ _ hdigit, Nat.ofDigitChars_ten_toDigits]

/-- The host can stand in front of the colon of a command. -/
structure Typable (host : Bytes) : Prop where
  noColon : 58 ∉ host
  notBlank : ∀ c ∈ host.head?, isBlank c = false

theorem stoi_port (port : UInt16) : stoi (decimal port.toNat) = .ok (port.toNat : Int) := by
  have hdigits : (decimal port.toNat).all isDigit = true :=
    List.all_eq_true.2 fun c hc => isDigit_of_mem_decimal hc
  have hport := port.toNat_lt
  rw [stoi_digits (decimal_ne_nil _) hdigits, decimalValue_decimal, if_pos (by omega)]

/-- An address that is typed as it is printed, with blanks around it, is found again. -/
theorem handleChatCommand_typed {host : Bytes} (htypable : Typable host) (port : UInt16)
    {before after : Bytes} (hbefore : ∀ c ∈ before, isBlank c = true)
    (hafter : ∀ c ∈ after, isBlank c = true) (n : Node) :
    handleChatCommand E n (before ++ hostPortText host port ++ after) = chatWith E n host port := by
  have htext : hostPortText host port = host ++ 58 :: decimal port.toNat := by
    rw [hostPortText, List.append_assoc]
    rfl
  -- the blanks in front stop at the host, or at the colon when it is empty
  have hdrop : (before ++ hostPortText host port ++ after).dropWhile isBlank =
      hostPortText host port ++ after := by
    rw [List.append_assoc, List.dropWhile_append_of_pos hbefore, htext]
    cases host with
    | nil => rfl
    | cons c host =>
        have hc := htypable.notBlank c rfl
        rw [List.cons_append, List.cons_append, List.dropWhile_cons_of_neg (by simp [hc])]
  -- those behind stop at the last digit of the port
  have hrdrop : (hostPortText host port ++ after).rdropWhile isBlank = hostPortText host port := by
    rw [List.rdropWhile, List.reverse_append, List.dropWhile_append_of_pos
      fun c hc => hafter c (List.mem_reverse.1 hc)]
    have hlast : ∀ c ∈ (decimal port.toNat).reverse, isBlank c = false := by
      intro c hc
      have hdigit := isDigit_of_mem_decimal (List.mem_reverse.1 hc)
      revert hdigit
      exact forall_byte (P := fun c => isDigit c = true → isBlank c = false) (by decide +kernel) c
    have hcons : (hostPortText host port).reverse =
        (decimal port.toNat).reverse ++ 58 :: host.reverse := by
      rw [htext]
      simp
    cases hdigits : (decimal port.toNat).reverse with
    | nil => exact absurd (List.reverse_eq_nil_iff.1 hdigits) (decimal_ne_nil _)
    | cons c rest =>
        rw [hdigits] at hlast hcons
        rw [hcons, List.cons_append, List.dropWhile_cons_of_neg
          (by simp [hlast c List.mem_cons_self]), ← List.cons_append, ← hcons, List.reverse_reverse]
  have hne : hostPortText host port ≠ [] := by simp [htext]
  rw [handleChatCommand, hdrop, hrdrop]
  simp only [hne, if_false]
  -- the host has no colon, so the first one ends it
  have hfind : find (hostPortText host port) 58 0 = some host.length := by
    rw [htext]
    exact find_cut htypable.noColon (Nat.zero_le _)
  have htake : (hostPortText host port).take host.length = host := by simp [htext]
  have hport : (hostPortText host port).drop (host.length + 1) = decimal port.toNat := by
    simp [htext]
  have hdigits : ¬ (decimal port.toNat = [] ∨ ¬ (decimal port.toNat).all isDigit = true) := by
    simp only [decimal_ne_nil, false_or, not_not]
    exact List.all_eq_true.2 fun c hc => isDigit_of_mem_decimal hc
  have hofInt : UInt16.ofInt (port.toNat : Int) = port := by
    apply UInt16.toNat_inj.1
    have hlt := port.toNat_lt
    rw [toNat_ofInt16]
    omega
  simp only [hfind, htake, hport, if_neg hdigits, stoi_port, hofInt]

end Typed

/-! ## The marks -/

section Marks

variable {E}

/-- The row and the JSON of the message name one block of the chain, and the block is signed by the
sender of the message and made at its time from its text. -/
structure Vouched (E : Env) (n : Node) (m : TextMessage) : Prop where
  row : ∃ r ∈ n.messages.data, r.messageId = .bind m.id ∧ r.blockHash.text = m.blockHash
  named : m.blockHash ≠ ""
  block : ∃ b ∈ ChainDB.loadAllBlocks n.chain, b.hash = m.blockHash ∧
    b.authorPublicKey = m.fromPeer.publicKey ∧ b.timestamp = m.timestamp ∧
    b.payloadHash = E.sha256 (cBytes m.message) ∧
    BlockchainService.verifyBlockSignature E b = .ok true

/-- The line shows the message, and it has no mark if and only if all messages of the chat with its
id are vouched for. -/
structure Shows (E : Env) (n : Node) (messages : List TextMessage) (m : TextMessage) (e : Entry) :
    Prop where
  timestamp : e.timestamp = m.timestamp
  own : e.own = true ↔ m.fromPeer.publicKey = n.config.publicKey
  message : e.message = m.message
  unmarked : e.invalid = false ↔ ∀ m' ∈ messages, m'.id = m.id → Vouched E n m'

theorem compareBlockWithMessage_eq_none {b : Block} {m : TextMessage} :
    BlockchainService.compareBlockWithMessage E b m = .ok none ↔
      b.authorPublicKey = m.fromPeer.publicKey ∧ b.timestamp = m.timestamp ∧
        b.payloadHash = E.sha256 (cBytes m.message) ∧
        BlockchainService.verifyBlockSignature E b = .ok true := by
  rw [BlockchainService.compareBlockWithMessage]
  by_cases hauthor : b.authorPublicKey = m.fromPeer.publicKey
  · by_cases htime : b.timestamp = m.timestamp
    · by_cases hpayload : E.sha256 (cBytes m.message) = b.payloadHash
      · rcases hverify : BlockchainService.verifyBlockSignature E b with e | ok
        · simp [hauthor, htime, hpayload, bind, Except.bind]
        · cases ok <;> simp [hauthor, htime, hpayload, bind, Except.bind, pure, Except.pure]
      · have hpayload' : b.payloadHash ≠ E.sha256 (cBytes m.message) := Ne.symm hpayload
        simp [hauthor, htime, hpayload, hpayload', pure, Except.pure]
    · simp [hauthor, htime, pure, Except.pure]
  · simp [hauthor, pure, Except.pure]

/-- The check of one message. -/
theorem isInvalid_eq_false_iff {n : Node} {m : TextMessage} :
    MessageService.isInvalid E n.messages n.chain m = .ok false ↔ Vouched E n m := by
  constructor
  · intro h
    rw [MessageService.isInvalid] at h
    cases hrow : MessageDB.findBlockHashByMessageId n.messages m.id with
    | none => simp [hrow] at h
    | some blockHash =>
        rw [MessageDB.findBlockHashByMessageId, Option.map_eq_some_iff] at hrow
        obtain ⟨r, hr, rfl⟩ := hrow
        have hmem := List.mem_of_find?_eq_some hr
        have hid : r.messageId = .bind m.id := by simpa using List.find?_some hr
        rw [MessageDB.findBlockHashByMessageId_of_mem hmem hid] at h
        dsimp only at h
        split_ifs at h with hbad
        · cases h
        -- the row has a hash, and it is that of the message
        rw [Bool.or_eq_true, not_or, String.isEmpty_iff, decide_eq_true_eq, not_not] at hbad
        obtain ⟨hne, hsame⟩ := hbad
        cases hblock : ChainDB.findBlockByHash n.chain r.blockHash.text with
        | none => simp [hblock] at h
        | some b =>
            obtain ⟨hb, hhash⟩ := ChainDB.findBlockByHash_some hblock
            rw [cString_of_noNul r.blockHash.noNul] at hhash
            simp only [hblock] at h
            -- the block was found, so only the comparison is left
            have hcompare : BlockchainService.compareBlockWithMessage E b m = .ok none := by
              rcases hresult : BlockchainService.compareBlockWithMessage E b m with e | error
              · simp [hresult, bind, Except.bind] at h
              · cases error with
                | none => rfl
                | some text => simp [hresult, bind, Except.bind, pure, Except.pure] at h
            exact ⟨⟨r, hmem, hid, hsame⟩, hsame ▸ hne, b, hb, hhash.trans hsame,
              compareBlockWithMessage_eq_none.1 hcompare⟩
  · rintro ⟨⟨r, hr, hid, hsame⟩, hne, b, hb, hhash, hcompare⟩
    have hnul : cString m.blockHash = m.blockHash := hsame ▸ cString_of_noNul r.blockHash.noNul
    refine MessageService.isInvalid_eq_false ?_ hne
      (ChainDB.findBlockByHash_of_mem hb (hhash.trans hnul.symm))
      (compareBlockWithMessage_eq_none.2 hcompare)
    rw [MessageDB.findBlockHashByMessageId_of_mem hr hid, hsame]

/-- When nothing is thrown, the reported ids are those of the messages that fail the check. -/
theorem findInvalidChatMessageIDs_spec {t : MessageTable} {chain : BlockTable}
    {messages : List TextMessage} {invalidIds : List String}
    (h : MessageService.findInvalidChatMessageIDs E t chain messages = (invalidIds, none)) :
    (∀ m ∈ messages, ∃ invalid, MessageService.isInvalid E t chain m = .ok invalid) ∧
      ∀ id, id ∈ invalidIds ↔
        ∃ m ∈ messages, m.id = id ∧ MessageService.isInvalid E t chain m = .ok true := by
  induction messages generalizing invalidIds with
  | nil =>
      cases h
      simp
  | cons m messages ih =>
      rw [MessageService.findInvalidChatMessageIDs] at h
      rcases hcheck : MessageService.isInvalid E t chain m with e | invalid
      · simp [hcheck] at h
      · rcases hrest : MessageService.findInvalidChatMessageIDs E t chain messages with ⟨ids, e⟩
        simp only [hcheck, hrest, Prod.mk.injEq] at h
        obtain ⟨rfl, rfl⟩ := h
        obtain ⟨hall, hids⟩ := ih hrest
        refine ⟨List.forall_mem_cons.2 ⟨⟨invalid, hcheck⟩, hall⟩, fun id => ?_⟩
        cases invalid with
        | false => simp [hids, hcheck]
        | true => simp [hids, hcheck, eq_comm]

theorem chatWith_eq_history {n : Node} {host host' : Bytes} {port port' : UInt16}
    {invalidIds : List String} {entries : List Entry}
    (h : chatWith E n host' port' = .history host port invalidIds entries) :
    host' = host ∧ port' = port ∧ ∃ peerPublicKey,
      findPublicKey n.chatPeers host port = some peerPublicKey ∧
      MessageService.findInvalidChatMessageIDs E n.messages n.chain
        (MessageService.findChatMessages E n.config.privateKey n.messages n.config.publicKey
          peerPublicKey) = (invalidIds, none) ∧
      entries = (MessageService.findChatMessages E n.config.privateKey n.messages
        n.config.publicKey peerPublicKey).map (entry n.config.publicKey invalidIds) := by
  rw [chatWith] at h
  cases hkey : findPublicKey n.chatPeers host' port' with
  | none => simp [hkey] at h
  | some peerPublicKey =>
      simp only [hkey] at h
      split_ifs at h
      rcases hcheck : MessageService.findInvalidChatMessageIDs E n.messages n.chain
        (MessageService.findChatMessages E n.config.privateKey n.messages n.config.publicKey
          peerPublicKey) with ⟨ids, e⟩
      rw [hcheck] at h
      cases e with
      | some e => simp at h
      | none =>
          cases h
          exact ⟨rfl, rfl, peerPublicKey, hkey, hcheck, rfl⟩

/-- The host of a history was typed in. -/
theorem handleChatCommand_eq_history {n : Node} {args host : Bytes} {port : UInt16}
    {invalidIds : List String} {entries : List Entry}
    (h : handleChatCommand E n args = .history host port invalidIds entries) :
    chatWith E n host port = .history host port invalidIds entries ∧ host <:+: args := by
  rw [handleChatCommand] at h
  generalize hhostPort : (args.dropWhile isBlank).rdropWhile isBlank = hostPort at h
  have hinfix : hostPort <:+: args := hhostPort ▸
    (List.rdropWhile_prefix _ _).isInfix.trans (List.dropWhile_suffix _).isInfix
  dsimp only at h
  split_ifs at h
  cases hcolon : find hostPort 58 0 with
  | none => simp [hcolon] at h
  | some colonPos =>
      simp only [hcolon] at h
      split_ifs at h
      cases hport : stoi (hostPort.drop (colonPos + 1)) with
      | error e => simp [hport] at h
      | ok number =>
          simp only [hport] at h
          obtain ⟨rfl, rfl, -⟩ := chatWith_eq_history h
          exact ⟨h, (List.take_prefix _ _).isInfix.trans hinfix⟩

theorem findChatMessages_sorted (E : Env) (privateKey : String) (t : MessageTable)
    (peerA peerB : String) :
    (MessageService.findChatMessages E privateKey t peerA peerB).Pairwise
      fun a b => a.timestamp ≤ b.timestamp := by
  have htrans : ∀ a b c : TextMessage, decide (a.timestamp ≤ b.timestamp) = true →
      decide (b.timestamp ≤ c.timestamp) = true → decide (a.timestamp ≤ c.timestamp) = true :=
    fun a b c hab hbc => decide_eq_true
      (UInt64.le_trans (of_decide_eq_true hab) (of_decide_eq_true hbc))
  have htotal : ∀ a b : TextMessage,
      (decide (a.timestamp ≤ b.timestamp) || decide (b.timestamp ≤ a.timestamp)) = true :=
    fun a b => by simpa using UInt64.le_total a.timestamp b.timestamp
  have hsorted := List.pairwise_mergeSort htrans htotal
    ((MessageDB.selectChat t peerA peerB).filterMap (MessageDB.readRow E privateKey false) ++
      (MessageDB.selectChat t peerB peerA).filterMap (MessageDB.readRow E privateKey true))
  exact hsorted.imp fun h => of_decide_eq_true h

/-- In the order of time, every message that can be read from the rows of the chat has one line,
and the lines without a mark are those that the chain vouches for. -/
theorem history_shows {n : Node} {args host : Bytes} {port : UInt16} {invalidIds : List String}
    {entries : List Entry}
    (h : handleChatCommand E n args = .history host port invalidIds entries) :
    ∃ peerPublicKey messages, findPublicKey n.chatPeers host port = some peerPublicKey ∧
      messages.Perm
        ((MessageDB.selectChat n.messages n.config.publicKey peerPublicKey).filterMap
            (MessageDB.readRow E n.config.privateKey false) ++
          (MessageDB.selectChat n.messages peerPublicKey n.config.publicKey).filterMap
            (MessageDB.readRow E n.config.privateKey true)) ∧
      messages.Pairwise (fun a b => a.timestamp ≤ b.timestamp) ∧
      List.Forall₂ (Shows E n messages) messages entries := by
  obtain ⟨-, -, peerPublicKey, hkey, hcheck, rfl⟩ :=
    chatWith_eq_history (handleChatCommand_eq_history h).1
  obtain ⟨hall, hids⟩ := findInvalidChatMessageIDs_spec hcheck
  refine ⟨peerPublicKey, MessageService.findChatMessages E n.config.privateKey n.messages
    n.config.publicKey peerPublicKey, hkey, List.mergeSort_perm _ _,
    findChatMessages_sorted E _ _ _ _, ?_⟩
  rw [List.forall₂_map_right_iff, List.forall₂_same]
  intro m hm
  refine ⟨rfl, by simp [entry], rfl, ?_⟩
  rw [entry, decide_eq_false_iff_not, hids]
  constructor
  · intro hno m' hm' hid
    obtain ⟨invalid, hinvalid⟩ := hall m' hm'
    cases invalid with
    | false => exact isInvalid_eq_false_iff.1 hinvalid
    | true => exact absurd ⟨m', hm', hid, hinvalid⟩ hno
  · rintro hvouched ⟨m', hm', hid, hinvalid⟩
    have hvalid := isInvalid_eq_false_iff.2 (hvouched m' hm' hid)
    rw [hvalid] at hinvalid
    cases hinvalid

end Marks

/-! ### A chat with two messages -/

namespace TwoMessages

open KeyedTable BlockchainService

def message : TextMessage := FirstBlock.message.setBlockHash FirstBlock.block.hash

/-- A text of the other one, one second younger.  Its block is not in the chain. -/
def stray : TextMessage :=
  (TextMessage.create { uuid := "m3", now := ⟨1700000001000, by decide⟩ } FirstBlock.rivalConfig.me
    FirstBlock.config.me [98]).setBlockHash FirstBlock.rival.hash

/-- The message as it is read from its JSON, with the signature of the sender. -/
def signed (m : TextMessage) (cfg : Config) : TextMessage :=
  { m with signature := XORCrypto.sign m.message ((fromHex cfg.privateKey).toOption.getD []) }

/-- The JSON that the owner of a key sends. -/
def json (m : TextMessage) (cfg : Config) : Json :=
  ((m.serialize testEnv cfg.privateKey { encrypt := 0, sign := 0 }).toOption).getD .null

/-- A node that has got the younger message before it sent the one of the first block. -/
def node : Node where
  config := FirstBlock.config
  peers := []
  newBlocks := []
  peersToReceive := 0
  missingBlocksCount := 0
  chatPeers := PeerDB.addPeer Table.empty FirstBlock.rivalConfig.me
  messages := (MessageDB.insertSecretMessage
    (MessageDB.insertSecretMessage Table.empty stray (json stray FirstBlock.rivalConfig)
      FirstBlock.rival.hash).1
    message (json message FirstBlock.config) FirstBlock.block.hash).1
  chain := FirstBlock.table

/-- `/chat 127.0.0.1:8002`. -/
def args : Bytes := bytesOf " 127.0.0.1:8002"

def entries : List Entry :=
  [{ timestamp := 1700000000000, own := true, message := [104, 105], invalid := false },
    { timestamp := 1700000001000, own := false, message := [98], invalid := true }]

theorem read_node :
    (MessageDB.selectChat node.messages node.config.publicKey
        FirstBlock.rivalConfig.publicKey).filterMap
        (MessageDB.readRow testEnv node.config.privateKey false) ++
      (MessageDB.selectChat node.messages FirstBlock.rivalConfig.publicKey
        node.config.publicKey).filterMap (MessageDB.readRow testEnv node.config.privateKey true) =
      [signed stray FirstBlock.rivalConfig, signed message FirstBlock.config] := by
  decide +kernel

/-- The sort exchanges the two. -/
theorem findChatMessages_node : MessageService.findChatMessages testEnv node.config.privateKey
    node.messages node.config.publicKey FirstBlock.rivalConfig.publicKey =
      [signed message FirstBlock.config, signed stray FirstBlock.rivalConfig] := by
  have hlater : ¬ (signed stray FirstBlock.rivalConfig).timestamp ≤
      (signed message FirstBlock.config).timestamp := by decide +kernel
  have hsort : ∀ a b : TextMessage, ¬ a.timestamp ≤ b.timestamp →
      [a, b].mergeSort (fun a b => decide (a.timestamp ≤ b.timestamp)) = [b, a] := by
    intro a b hab
    simp [List.mergeSort, hab]
  rw [MessageService.findChatMessages, MessageDB.findChatMessages]
  dsimp only
  rw [read_node, hsort _ _ hlater]

theorem typable : Typable (bytesOf "127.0.0.1") where
  noColon := by decide
  notBlank := by
    intro c hc
    obtain rfl : 49 = c := Option.some.inj hc
    decide

theorem history_node : handleChatCommand testEnv node args =
    .history (bytesOf "127.0.0.1") 8002 ["m3"] entries := by
  have hargs : args = [32] ++ hostPortText (bytesOf "127.0.0.1") 8002 ++ [] := by decide +kernel
  have hkey : findPublicKey node.chatPeers (bytesOf "127.0.0.1") 8002 =
      some FirstBlock.rivalConfig.publicKey := by
    decide +kernel
  have hcheck : MessageService.findInvalidChatMessageIDs testEnv node.messages node.chain
      [signed message FirstBlock.config, signed stray FirstBlock.rivalConfig] = (["m3"], none) := by
    decide +kernel
  have htyped : handleChatCommand testEnv node
      ([32] ++ hostPortText (bytesOf "127.0.0.1") 8002 ++ []) =
        chatWith testEnv node (bytesOf "127.0.0.1") 8002 :=
    handleChatCommand_typed typable 8002 (List.forall_mem_singleton.2 rfl)
      (List.forall_mem_nil _) node
  rw [hargs, htyped, chatWith]
  simp only [hkey, findChatMessages_node, hcheck]
  decide +kernel

/-- The message that came first stands last, and has a mark. -/
theorem history_shows_two :
    ∃ peerPublicKey messages,
      findPublicKey node.chatPeers (bytesOf "127.0.0.1") 8002 = some peerPublicKey ∧
      messages.Perm
        ((MessageDB.selectChat node.messages node.config.publicKey peerPublicKey).filterMap
            (MessageDB.readRow testEnv node.config.privateKey false) ++
          (MessageDB.selectChat node.messages peerPublicKey node.config.publicKey).filterMap
            (MessageDB.readRow testEnv node.config.privateKey true)) ∧
      messages.Pairwise (fun a b => a.timestamp ≤ b.timestamp) ∧
      List.Forall₂ (Shows testEnv node messages) messages entries :=
  history_shows history_node

end TwoMessages

/-! ## The lines -/

/-- A decimal number is on one line. -/
theorem newline_notMem_decimal (n : Nat) : (10 : UInt8) ∉ decimal n := by
  intro hmem
  exact absurd (isDigit_of_mem_decimal hmem) (by decide)

variable {E clock}

/-- Only the text can put a line break into the line of an entry. -/
theorem newline_mem_line_iff (e : Entry) : (10 : UInt8) ∈ e.line clock ↔ 10 ∈ e.message := by
  have hfixed : ∀ s ∈ ["[", "] ", "YOU", "PEER", ": ", " [INVALID]", ""],
      (10 : UInt8) ∉ bytesOf s := by
    decide
  have htime := newline_notMem_timestampToString clock e.timestamp
  rw [Entry.line, Entry.heading]
  cases e.own <;> cases e.invalid <;> simp [hfixed, htime]

/-- The printed history has its two first lines and one line for each entry if and only if no text
has a line break. -/
theorem history_lines_iff {n : Node} {args host : Bytes} (hargs : (10 : UInt8) ∉ args)
    {port : UInt16} {invalidIds : List String} {entries : List Entry}
    (h : handleChatCommand E n args = .history host port invalidIds entries) :
    ((handleChatCommand E n args).print clock).splitOn 10 =
        titleLine host port :: countLine entries.length invalidIds.length ::
          entries.map (Entry.line clock) ++ [[]] ↔
      ∀ e ∈ entries, (10 : UInt8) ∉ e.message := by
  have hhost : (10 : UInt8) ∉ host := fun hmem =>
    hargs ((handleChatCommand_eq_history h).2.subset hmem)
  have hnewline : bytesOf "\n" = [10] := rfl
  rw [h, ChatResult.print, hnewline, Separated.splitOn_fields_iff]
  have htitle : (10 : UInt8) ∉ titleLine host port := by
    have hfixed : ∀ s ∈ ["[CHAT HISTORY with ", ":", "]"], (10 : UInt8) ∉ bytesOf s := by decide
    simp [titleLine, hostPortText, hhost, newline_notMem_decimal, hfixed]
  have hcount : (10 : UInt8) ∉ countLine entries.length invalidIds.length := by
    have hfixed : ∀ s ∈ ["Total messages: ", " (", " invalid)"], (10 : UInt8) ∉ bytesOf s := by
      decide
    rw [countLine]
    split_ifs <;> simp [newline_notMem_decimal, hfixed]
  rw [List.forall_mem_cons, List.forall_mem_cons, List.forall_mem_map]
  simp only [htitle, hcount, newline_mem_line_iff, not_false_eq_true, true_and]

/-- Neither text has a line break, so there are four lines. -/
theorem history_lines_two :
    ((handleChatCommand testEnv TwoMessages.node TwoMessages.args).print
        ⟨1000000, fun _ => 3600⟩).splitOn 10 =
        titleLine (bytesOf "127.0.0.1") 8002 ::
          countLine TwoMessages.entries.length ["m3"].length ::
          TwoMessages.entries.map (Entry.line ⟨1000000, fun _ => 3600⟩) ++ [[]] ↔
      ∀ e ∈ TwoMessages.entries, (10 : UInt8) ∉ e.message :=
  history_lines_iff (by decide) TwoMessages.history_node

/-- A text with line breaks can show any line, also one of an own message that was never sent. -/
theorem forged_line_shown {n : Node} {args host : Bytes} {port : UInt16} {invalidIds : List String}
    {entries : List Entry}
    (h : handleChatCommand E n args = .history host port invalidIds entries) {e : Entry}
    (he : e ∈ entries) {forged : Bytes} (hforged : (10 : UInt8) ∉ forged) {before after : Bytes}
    (htext : e.message = before ++ 10 :: forged ++ 10 :: after) :
    forged ∈ ((handleChatCommand E n args).print clock).splitOn 10 := by
  have hnewline : bytesOf "\n" = [10] := rfl
  rw [h, ChatResult.print, hnewline, Separated.splitOn_flatMap_append]
  refine List.mem_append_left _ (List.mem_flatMap.2 ⟨e.line clock,
    List.mem_cons_of_mem _ (List.mem_cons_of_mem _ (List.mem_map_of_mem he)), ?_⟩)
  obtain ⟨start, stop, hline⟩ : ∃ start stop, e.line clock =
      start ++ 10 :: (forged ++ 10 :: stop) := by
    rw [Entry.line, htext]
    exact ⟨e.heading clock ++ before,
      after ++ bytesOf (if e.invalid then " [INVALID]" else ""),
      by simp only [List.append_assoc, List.cons_append]⟩
  rw [hline, List.splitOn_append_cons_self, List.splitOn_append_cons_self,
    List.splitOn_eq_singleton hforged]
  simp

end ChatApplication
end DChat
