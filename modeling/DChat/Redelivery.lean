import DChat.Requests
import DChat.Wire

/-!
# Redelivery — a value that arrives twice

Each handler has its own reason why a second run does nothing: `addPeer` looks for the triple,
a unique column refuses the row, a deletion finds nothing more to delete.  `removePeer` takes out
one entry, so here the list must have no equal entries, which `addPeer` sees to.
-/

namespace DChat

open Utils Crypto KeyedTable

namespace Peer

/-! ## Peers -/

namespace PeerService

/-- A list of peers as `addPeer` and `removePeer` leave it. -/
inductive Built : List UserPeer → Prop
  | start : Built []
  | addPeer {peers : List UserPeer} (h : Built peers) (p : UserPeer) : Built (addPeer peers p)
  | removePeer {peers : List UserPeer} (h : Built peers) (p : UserPeer) :
      Built (removePeer peers p)

theorem Built.nodup {peers : List UserPeer} (h : Built peers) : peers.Nodup := by
  induction h with
  | start => exact List.nodup_nil
  | addPeer _ p ih => exact nodup_addPeer ih p
  | removePeer _ p ih => exact ih.erase p

theorem removePeer_removePeer {peers : List UserPeer} (h : peers.Nodup) (p : UserPeer) :
    removePeer (removePeer peers p) p = removePeer peers p :=
  List.erase_of_not_mem (h.not_mem_erase)

end PeerService

theorem PeerDB.addPeer_addPeer (t : PeerTable) (p : UserPeer) :
    addPeer (addPeer t p) p = addPeer t p := by
  by_cases h : (t.data.any fun r => decide (r.publicKey = .bind p.publicKey)) = true
  · have hsame : addPeer t p = t := if_pos h
    rw [hsame, hsame]
  · have hrow : addPeer t p = (t.insert (PeerRow.mk (.bind p.host) p.port
        (.bind p.publicKey))).1 := if_neg h
    -- the row is there after the insertion
    rcases Table.exists_key_insert t (PeerRow.mk (.bind p.host) p.port (.bind p.publicKey)) with
      ⟨r, hr, hkey⟩
    rw [hrow]
    exact if_pos (List.any_eq_true.2 ⟨r, hr, decide_eq_true hkey⟩)

end Peer

/-! ## Blocks -/

namespace Blockchain

theorem ChainDB.insertBlock_insertBlock (t : BlockTable) (b : Block) :
    (insertBlock (insertBlock t b).1 b).1 = (insertBlock t b).1 := by
  by_cases hchild : b.previousHash ≠ "0" ∧ selectChild t b.previousHash
  · have hsame : (insertBlock t b).1 = t := by rw [insertBlock, if_pos hchild]
    rw [hsame, hsame]
  · have hrow : (insertBlock t b).1 = (t.insert (BlockRow.ofBlock b)).1 := by
      rw [insertBlock, if_neg hchild, insertRow]
    rw [hrow, insertBlock]
    split_ifs
    · rfl
    · rw [insertRow, Table.insert_insert]

namespace BlockchainService

open Peer Messaging AtomicProg

/-- Taken in or refused the first time, the block changes nothing the second time. -/
theorem onIncomingBlock_twice (E : Env) (me : UserPeer) (now : ClockReading) (tick tick' : Tick)
    (t : BlockTable) (jData : Json) :
    ((onIncomingBlock E me now tick' jData).run ChainOp.exec
        ((onIncomingBlock E me now tick jData).run ChainOp.exec t).2).2 =
      ((onIncomingBlock E me now tick jData).run ChainOp.exec t).2 := by
  cases hblock : Block.ofJson jData with
  | error e => simp [onIncomingBlock, hblock]
  | ok block =>
      have hcases := fun tick t => onIncomingBlock_cases (E := E) me now tick t hblock
      rcases hcases tick t with ⟨_, hrun⟩ | ⟨hno, _, _, hrun⟩
      · rw [hrun]
        rcases hcases tick' (ChainDB.insertBlock t block).1 with ⟨_, hrun'⟩ | ⟨_, _, _, hrun'⟩
        · rw [hrun']
          exact ChainDB.insertBlock_insertBlock t block
        · rw [hrun']
      · rw [hrun]
        rcases hcases tick' t with ⟨hyes, _⟩ | ⟨_, _, _, hrun'⟩
        · exact absurd hyes hno
        · rw [hrun']

end BlockchainService
end Blockchain

/-! ## Requests -/

namespace Chat
namespace Request

open Peer Messaging Blockchain

theorem handle_twice (request : Request) {n : Node} (hpeers : n.peers.Nodup) (tick tick' : Tick)
    (j : Json) :
    (request.handle (request.handle n tick j).1 tick' j).1 = (request.handle n tick j).1 := by
  cases request with
  | connect message =>
      simp only [handle, ChatService.handleIncomingConnectionMessage,
        PeerService.addPeer_addPeer]
  | text message =>
      simp only [handle, ChatService.handleIncomingTextMessage, MessageDB.insertSecretMessage,
        Table.insert_insert, PeerDB.addPeer_addPeer]
  | peerList message => rfl
  | blockRange message => rfl
  | disconnect message =>
      simp only [handle, ChatService.handleIncomingDisconnectionMessage,
        PeerService.removePeer_removePeer hpeers]
  | blockchainError message =>
      simp only [handle, ChatService.handleOutgoingBlockchainErrorMessage,
        MessageService.removeMessageByBlockHashOrId_eq, MessageDB.removeMessageByBlockHash,
        Table.deleteWhere_deleteWhere]
  | unknown => rfl

end Request
end Chat

namespace Network
namespace TCPServer

open Peer Messaging Blockchain BlockchainService Chat Request PeerService

/-- Whatever a node receives twice in a row at one reading of the clock, the second time leaves the
node as the first time did. -/
theorem redelivery_harmless (E : Env) {n : Node} (hpeers : Built n.peers) (visit visit' : Visit)
    (hclock : visit'.checked = visit.checked) (jData : Json) :
    (serve E (serve E n visit jData).1 visit' jData).1 = (serve E n visit jData).1 := by
  cases hkind : jData.contains "previousHash" && jData.contains "payloadHash" with
  | true =>
      simp only [serve_of_block _ _ hkind, hclock, BlockchainService.onIncomingBlock_twice]
  | false =>
      simp only [serve_of_message _ _ hkind, handleIncomingMessage_eq]
      cases hdecode : decode (decodeText E n.config.privateKey) jData with
      | ok request =>
          -- the key that decodes is the same afterwards
          simp only [respond, config_handle, hdecode]
          exact handle_twice request hpeers.nodup visit.tick visit'.tick jData
      | error e => cases e <;> simp only [respond, hdecode]

/-- A peer that says goodbye twice. -/
theorem redelivery_harmless_disconnect :
    (serve testEnv (serve testEnv
        (SmallNet.node FirstBlock.config [FirstBlock.rivalConfig.me] Table.empty) SmallNet.visit
        (Message.create (FirstBlock.tick "1") .disconnect FirstBlock.rivalConfig.me
          FirstBlock.config.me).basicSerialization).1 SmallNet.visit
        (Message.create (FirstBlock.tick "1") .disconnect FirstBlock.rivalConfig.me
          FirstBlock.config.me).basicSerialization).1 =
      (serve testEnv (SmallNet.node FirstBlock.config [FirstBlock.rivalConfig.me] Table.empty)
        SmallNet.visit (Message.create (FirstBlock.tick "1") .disconnect FirstBlock.rivalConfig.me
          FirstBlock.config.me).basicSerialization).1 := by
  have hbuilt : Built [FirstBlock.rivalConfig.me] := Built.addPeer Built.start _
  exact redelivery_harmless testEnv hbuilt SmallNet.visit SmallNet.visit rfl _

end TCPServer
end Network
end DChat
