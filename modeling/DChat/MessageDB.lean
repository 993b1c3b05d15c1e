import DChat.Decimal
import DChat.TextMessage

/-!
# MessageDB — the message table and the two views of it

The `messages` table keeps the JSON of every message that was sent or received, still
encrypted, under its unique message id.  `findChatMessages` reads a chat back with the node's
private key; a message that cannot be read is dropped and makes the call throw at its end.
-/

namespace DChat
namespace Messaging

open Utils Crypto KeyedTable

/-- A row of `messages`.  The dump is kept as the value it is parsed back to. -/
structure MessageRow where
  messageId : DbText
  toPublicKey : DbText
  fromPublicKey : DbText
  timestamp : SqlNumber
  messageJson : Json
  blockHash : DbText

/-- The values of the `INSERT`. -/
def MessageRow.ofMessage (message : TextMessage) (messageDump : Json) (blockHash : String) :
    MessageRow where
  messageId := .bind message.id
  toPublicKey := .bind message.toPeer.publicKey
  fromPublicKey := .bind message.fromPeer.publicKey
  timestamp := .ofText message.timestamp
  messageJson := messageDump
  blockHash := .bind blockHash

/-- The `messages` table: `message_id TEXT NOT NULL UNIQUE`. -/
abbrev MessageTable := Table MessageRow.messageId

namespace MessageDB

def insertSecretMessage (t : MessageTable) (message : TextMessage) (messageDump : Json)
    (blockHash : String) : MessageTable × Bool :=
  t.insert (.ofMessage message messageDump blockHash)

/-- One of the two statements of `findChatMessages`. -/
def selectChat (t : MessageTable) (toPublicKey fromPublicKey : String) : List MessageRow :=
  t.data.filter fun r => r.toPublicKey = .bind toPublicKey ∧ r.fromPublicKey = .bind fromPublicKey

/-- The callback on a row, without the error flag. -/
def readRow (E : Env) (privateKey : String) (invertFromTo : Bool) (r : MessageRow) :
    Option TextMessage :=
  (TextMessage.ofJson E r.messageJson privateKey invertFromTo true).toOption

/-- What `findChatMessages` leaves in `messages`, and what it throws.  Messages of one timestamp
come in any order from `std::sort`, and in the order of the rows here. -/
def findChatMessages (E : Env) (privateKey : String) (t : MessageTable)
    (peerAPublicKey peerBPublicKey : String) : List TextMessage × Option Exn :=
  let received := selectChat t peerAPublicKey peerBPublicKey
  let sent := selectChat t peerBPublicKey peerAPublicKey
  let messages := received.filterMap (readRow E privateKey false) ++
    sent.filterMap (readRow E privateKey true)
  let error := (received.any fun r => (readRow E privateKey false r).isNone) ||
    sent.any fun r => (readRow E privateKey true r).isNone
  (messages.mergeSort fun a b => a.timestamp ≤ b.timestamp,
    if error then some (.std "std::exception") else none)

def findBlockHashByMessageId (t : MessageTable) (messageId : String) : Option String :=
  (t.data.find? fun r => r.messageId = .bind messageId).map fun r => r.blockHash.text

/-- A `DELETE` that matches nothing is done too. -/
def removeMessageByBlockHash (t : MessageTable) (blockHash : String) : MessageTable × Bool :=
  (t.deleteWhere fun x => x.2.blockHash = .bind blockHash, true)

/-- The exponent of a number, from the `e` on. -/
def exponent? : Bytes → Option Int
  | [] => some 0
  | c :: rest =>
      let (negative, digits) := splitSign rest
      if (c = 101 ∨ c = 69) ∧ digits ≠ [] ∧ digits.all isDigit then
        some (if negative then -decimalValue digits else decimalValue digits)
      else
        none

/-- `digits · 10 ^ power`, if it is whole. -/
def shiftDecimal? (digits : Bytes) : Int → Option Nat
  | .ofNat k => some (decimalValue digits * 10 ^ k)
  | .negSucc k =>
      if 10 ^ (k + 1) ∣ decimalValue digits then some (decimalValue digits / 10 ^ (k + 1)) else none

/-- The row id that a text is equal to.  The column gives the text its numeric affinity: white space
around a decimal number does not count, nor whether it is written as `1`, `1.`, `1.0` or `10e-1`.
What only the rounding to a `double` would make whole is not whole here. -/
def rowId? (s : String) : Option Int :=
  let text := ((bytesOf (cString s)).dropWhile isSpace).reverse.dropWhile isSpace
  let (negative, number) := splitSign text.reverse
  let (whole, rest) := number.span isDigit
  let (fraction, rest) :=
    match rest with
    | 46 :: rest => rest.span isDigit
    | rest => ([], rest)
  match exponent? rest with
  | some e =>
      if whole ++ fraction = [] then
        none
      else
        (shiftDecimal? (whole ++ fraction) (e - fraction.length)).map fun n =>
          if negative then -n else n
  | none => none

example : ["1", " +1 ", "1.", "1.0", "1e0", "10e-1", "0.1E+1"].all (rowId? · = some 1) := by
  decide +kernel

example : ["", "-1", "1.5", "1e", ".", "1 0", "0x1", "m1"].all (rowId? · ≠ some 1) := by
  decide +kernel

/-- The statement compares the row id, not the `message_id`. -/
def removeMessageById (t : MessageTable) (messageId : String) : MessageTable × Bool :=
  (t.deleteWhere fun x => rowId? messageId = some (x.1 : Int), true)

/-! ## What the writes do -/

theorem data_removeMessageByBlockHash (t : MessageTable) (blockHash : String) :
    (removeMessageByBlockHash t blockHash).1.data =
      t.data.filter fun r => !decide (r.blockHash = .bind blockHash) :=
  t.data_deleteWhere fun r => decide (r.blockHash = .bind blockHash)

/-- Removing the rows of a block undoes the insertion of one of them. -/
theorem data_remove_insert (t : MessageTable) (message : TextMessage) (messageDump : Json)
    (blockHash : String) :
    (removeMessageByBlockHash (insertSecretMessage t message messageDump blockHash).1
      blockHash).1.data = (removeMessageByBlockHash t blockHash).1.data := by
  rw [data_removeMessageByBlockHash, data_removeMessageByBlockHash]
  rcases Table.data_insert t (.ofMessage message messageDump blockHash) with h | h
  · rw [insertSecretMessage, h, List.filter_append]
    simp [MessageRow.ofMessage]
  · rw [insertSecretMessage, h]

theorem data_nodup (t : MessageTable) : t.data.Nodup := t.data_keys_nodup.of_map _

/-! ## Reading a chat back -/

/-- Of a list without duplicates, only one element is read as a value with the property. -/
theorem filter_filterMap_eq_singleton {α β : Type} {l : List α} (hl : l.Nodup) {read : α → Option β}
    {p : β → Bool} {a : α} {b : β} (ha : a ∈ l) (hread : read a = some b) (hb : p b = true)
    (hothers : ∀ a' ∈ l, a' ≠ a → ∀ b', read a' = some b' → p b' = false) :
    (l.filterMap read).filter p = [b] := by
  rcases List.append_of_mem ha with ⟨before, after, rfl⟩
  have hnodup := List.nodup_middle.1 hl
  have hnotin : a ∉ before ++ after := (List.nodup_cons.1 hnodup).1
  -- on either side of `a` nothing passes
  have hempty : ∀ l' : List α, (∀ a' ∈ l', a' ∈ before ++ after) →
      (l'.filterMap read).filter p = [] := by
    intro l' hl'
    rw [List.filter_eq_nil_iff]
    intro b' hb'
    rcases List.mem_filterMap.1 hb' with ⟨a', ha', hread'⟩
    have hne : a' ≠ a := by
      rintro rfl
      exact hnotin (hl' _ ha')
    have hmem : a' ∈ before ++ a :: after := by
      rcases List.mem_append.1 (hl' a' ha') with h | h
      · exact List.mem_append_left _ h
      · exact List.mem_append_right _ (List.mem_cons_of_mem _ h)
    simp [hothers a' hmem hne b' hread']
  rw [List.filterMap_append, List.filter_append, hempty before (fun _ => List.mem_append_left _),
    List.filterMap_cons_some hread, List.filter_cons_of_pos hb,
    hempty after (fun _ => List.mem_append_right _), List.nil_append]

theorem readRow_eq_some {E : Env} {privateKey : String} {invertFromTo : Bool} {r : MessageRow}
    {m : TextMessage} : readRow E privateKey invertFromTo r = some m ↔
      TextMessage.ofJson E r.messageJson privateKey invertFromTo true = .ok m := by
  rw [readRow]
  cases TextMessage.ofJson E r.messageJson privateKey invertFromTo true <;>
    simp [Except.toOption]

/-- The only row that is read as a message with the id gives that message, once. -/
theorem findChatMessages_filter {E : Env} {privateKey peerA peerB id : String} {t : MessageTable}
    {r : MessageRow} {m : TextMessage} {sent : Bool} (hr : r ∈ t.data)
    (hto : r.toPublicKey = .bind (if sent then peerB else peerA))
    (hfrom : r.fromPublicKey = .bind (if sent then peerA else peerB))
    (hkeys : DbText.bind peerA ≠ .bind peerB)
    (hread : readRow E privateKey sent r = some m) (hid : m.id = id)
    (hothers : ∀ r' ∈ t.data, r' ≠ r → ∀ invert m', readRow E privateKey invert r' = some m' →
      m'.id ≠ id) :
    (findChatMessages E privateKey t peerA peerB).1.filter (fun m' => m'.id = id) = [m] := by
  have hnodup : ∀ a b, (selectChat t a b).Nodup := fun a b => (data_nodup t).filter _
  have hmem : ∀ {a b r'}, r' ∈ selectChat t a b →
      r' ∈ t.data ∧ r'.toPublicKey = .bind a ∧ r'.fromPublicKey = .bind b := by
    intro a b r' h
    simpa [selectChat] using h
  -- the list that holds the row gives the message, the other list gives nothing
  have hone : ∀ {a b}, r ∈ selectChat t a b →
      ((selectChat t a b).filterMap (readRow E privateKey sent)).filter (fun m' => m'.id = id) =
        [m] := by
    intro a b h
    apply filter_filterMap_eq_singleton (hnodup a b) h hread (by simpa using hid)
    intro r' hr' hne m' hm'
    simpa using hothers r' (hmem hr').1 hne _ m' hm'
  have hnone : ∀ {a b} (invert : Bool), r ∉ selectChat t a b →
      ((selectChat t a b).filterMap (readRow E privateKey invert)).filter
        (fun m' => m'.id = id) = [] := by
    intro a b invert h
    rw [List.filter_eq_nil_iff]
    intro m' hm'
    rcases List.mem_filterMap.1 hm' with ⟨r', hr', hread'⟩
    have hne : r' ≠ r := by
      rintro rfl
      exact h hr'
    simpa using hothers r' (hmem hr').1 hne invert m' hread'
  have hperm := ((List.mergeSort_perm ((selectChat t peerA peerB).filterMap
      (readRow E privateKey false) ++ (selectChat t peerB peerA).filterMap
      (readRow E privateKey true)) fun a b => decide (a.timestamp ≤ b.timestamp)).filter
        fun m' => decide (m'.id = id))
  rw [List.filter_append] at hperm
  cases sent with
  | false =>
      have hin : r ∈ selectChat t peerA peerB := by
        simpa [selectChat, hr] using And.intro hto hfrom
      have hout : r ∉ selectChat t peerB peerA := by
        intro h
        exact hkeys (hto.symm.trans (hmem h).2.1)
      rw [hone hin, hnone true hout, List.append_nil] at hperm
      exact List.perm_singleton.1 hperm
  | true =>
      have hin : r ∈ selectChat t peerB peerA := by
        simpa [selectChat, hr] using And.intro hto hfrom
      have hout : r ∉ selectChat t peerA peerB := by
        intro h
        exact hkeys ((hmem h).2.1.symm.trans hto)
      rw [hone hin, hnone false hout, List.nil_append] at hperm
      exact List.perm_singleton.1 hperm

/-- The block hash of a stored message is the one of its row. -/
theorem findBlockHashByMessageId_of_mem {t : MessageTable} {r : MessageRow} {messageId : String}
    (hr : r ∈ t.data) (hid : r.messageId = .bind messageId) :
    findBlockHashByMessageId t messageId = some r.blockHash.text := by
  cases hfind : t.data.find? fun r => decide (r.messageId = .bind messageId) with
  | none =>
      have hno := List.find?_eq_none.1 hfind r hr
      simp [hid] at hno
  | some r' =>
      have hid' : r'.messageId = .bind messageId := by simpa using List.find?_some hfind
      have heq : r' = r :=
        Table.eq_of_key_eq (List.mem_of_find?_eq_some hfind) hr (hid'.trans hid.symm)
      rw [findBlockHashByMessageId, hfind, heq]
      rfl

end MessageDB

end Messaging
end DChat
