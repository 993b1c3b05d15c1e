import DChat.MessageDB
import DChat.BlockchainService

/-!
# MessageService — chats and the check of their messages against the chain

`findInvalidChatMessageIDs` trusts a message when its row and its JSON name one block, the
block is in the chain, and the block was made from this message.
-/

namespace DChat
namespace Messaging

open Utils Crypto Blockchain

namespace MessageService

/-- `MessageService::findChatMessages`: what the repository throws is only logged. -/
def findChatMessages (E : Env) (privateKey : String) (t : MessageTable)
    (peerAPublicKey peerBPublicKey : String) : List TextMessage :=
  (MessageDB.findChatMessages E privateKey t peerAPublicKey peerBPublicKey).1

/-- The body of the loop of `findInvalidChatMessageIDs`. -/
def isInvalid (E : Env) (t : MessageTable) (chain : BlockTable) (message : TextMessage) :
    Except Exn Bool :=
  match MessageDB.findBlockHashByMessageId t message.id with
  | none => .ok true
  | some blockHash =>
      if blockHash.isEmpty || blockHash ≠ message.blockHash then
        .ok true
      else
        match ChainDB.findBlockByHash chain blockHash with
        | none => .ok true
        | some block => do
            let error ← BlockchainService.compareBlockWithMessage E block message
            return error.isSome

/-- The ids that are reported before the end or before a key that does not decode, and what is
thrown then. -/
def findInvalidChatMessageIDs (E : Env) (t : MessageTable) (chain : BlockTable) :
    List TextMessage → List String × Option Exn
  | [] => ([], none)
  | message :: messages =>
      match isInvalid E t chain message with
      | .error e => ([], some e)
      | .ok invalid =>
          let (invalidIds, e) := findInvalidChatMessageIDs E t chain messages
          (if invalid then message.id :: invalidIds else invalidIds, e)

/-- `MessageService::removeMessageByBlockHashOrId`. -/
def removeMessageByBlockHashOrId (t : MessageTable) (blockHash messageId : String) :
    MessageTable × Bool :=
  match MessageDB.removeMessageByBlockHash t blockHash with
  | (t, true) => (t, true)
  | (t, false) => MessageDB.removeMessageById t messageId

/-- The first statement always succeeds, so the second is never run. -/
theorem removeMessageByBlockHashOrId_eq (t : MessageTable) (blockHash messageId : String) :
    removeMessageByBlockHashOrId t blockHash messageId =
      MessageDB.removeMessageByBlockHash t blockHash := rfl

/-- An id is reported only for a message of the list that the check finds invalid. -/
theorem exists_invalid {E : Env} {t : MessageTable} {chain : BlockTable}
    {messages : List TextMessage} {id : String}
    (h : id ∈ (findInvalidChatMessageIDs E t chain messages).1) :
    ∃ message ∈ messages, message.id = id ∧ isInvalid E t chain message = .ok true := by
  induction messages with
  | nil => simp [findInvalidChatMessageIDs] at h
  | cons message messages ih =>
      cases hcheck : isInvalid E t chain message with
      | error e => simp [findInvalidChatMessageIDs, hcheck] at h
      | ok invalid =>
          have hcase : (invalid = true ∧ message.id = id) ∨
              id ∈ (findInvalidChatMessageIDs E t chain messages).1 := by
            cases invalid with
            | false => exact Or.inr (by simpa [findInvalidChatMessageIDs, hcheck] using h)
            | true =>
                have hmem : id = message.id ∨
                    id ∈ (findInvalidChatMessageIDs E t chain messages).1 := by
                  simpa [findInvalidChatMessageIDs, hcheck] using h
                exact hmem.imp (fun heq => ⟨rfl, heq.symm⟩) fun hrest => hrest
          rcases hcase with ⟨rfl, hid⟩ | hrest
          · exact ⟨message, List.mem_cons_self, hid, hcheck⟩
          · rcases ih hrest with ⟨m, hm, hmid⟩
            exact ⟨m, List.mem_cons_of_mem _ hm, hmid⟩

/-- A message passes when its row names the block that was made from it. -/
theorem isInvalid_eq_false {E : Env} {t : MessageTable} {chain : BlockTable} {message : TextMessage}
    {block : Block}
    (hhash : MessageDB.findBlockHashByMessageId t message.id = some message.blockHash)
    (hne : message.blockHash ≠ "")
    (hfind : ChainDB.findBlockByHash chain message.blockHash = some block)
    (hcompare : BlockchainService.compareBlockWithMessage E block message = .ok none) :
    isInvalid E t chain message = .ok false := by
  have hempty : message.blockHash.isEmpty = false := by simpa using hne
  simp [isInvalid, hhash, hempty, hfind, hcompare, bind, Except.bind, pure, Except.pure]

end MessageService

end Messaging
end DChat
