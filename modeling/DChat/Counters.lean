import DChat.Exchange
import DChat.Answers
import Mathlib.Order.Interval.Set.Disjoint
import Mathlib.Order.CompletePartialOrder

/-!
# Counters — 32-bit counters that a remote peer chooses

The end of a peer page is computed in 32 bits, `start + count`.  Where it wraps the page is empty.

The loops of `init` add a batch to a 32-bit `start` while it is below a count.  Both batches are
multiples of 4 and divide `2^32 - 4`, so `start` reaches `2^32 - 4` and then wraps: a count above
that number keeps the loop running for ever.
-/

namespace DChat
namespace Network
namespace Counters

open Utils Crypto Peer Messaging Blockchain BlockchainService Chat Request

variable {E : Env}

/-! ## A peer page -/

/-- The peers at the positions that the request asks for, in whole numbers, but the requester. -/
def requestedPeers (peers : List UserPeer) (m : PeerListMessage) : List UserPeer :=
  (Paging.window peers m.start.toNat (m.start.toNat + m.count.toNat)).filter (· ≠ m.fromPeer)

/-- The request is answered, and the response lists the requested peers. -/
def AnswersWindow (E : Env) (n : Node) (tick : Tick) (jMessage : Json) (m : PeerListMessage) :
    Prop :=
  ∃ response answer, (ChatService.handleIncomingMessage E n tick jMessage).2 = .ok response ∧
    PeerListMessageResponse.ofJson response = .ok answer ∧
    answer.peers = requestedPeers n.peers m

/-- The loop collects the peers up to the 32-bit end. -/
theorem answersWindow_iff {n : Node} {tick : Tick} {jMessage : Json} {m : PeerListMessage}
    (h : decode (decodeText E n.config.privateKey) jMessage = .ok (.peerList m)) :
    AnswersWindow E n tick jMessage m ↔
      (Paging.window n.peers m.start.toNat (m.start + m.count).toNat).filter (· ≠ m.fromPeer) =
        requestedPeers n.peers m := by
  have hresponse := ChatService.response_of_decode h tick
  have hanswer := PeerListMessageResponse.ofJson_serialize
    (m := PeerListMessageResponse.create tick m.toPeer m.fromPeer
      (((n.peers.take (m.start + m.count).toNat).drop m.start.toNat).filter (· ≠ m.fromPeer))) rfl
  rw [Paging.window_eq]
  constructor
  · rintro ⟨response, answer, hgiven, hread, hpeers⟩
    rw [hresponse] at hgiven
    rw [← Except.ok.inj hgiven] at hread
    rw [Except.ok.inj (hread.symm.trans hanswer)] at hpeers
    exact hpeers
  · intro hpeers
    exact ⟨_, _, hresponse, hanswer, hpeers⟩

/-- The response lists the requested window if and only if the end of the window does not wrap, or
nobody but the requester is in it. -/
theorem peer_page_is_window_iff {n : Node} {tick : Tick} {jMessage : Json} {m : PeerListMessage}
    (h : decode (decodeText E n.config.privateKey) jMessage = .ok (.peerList m)) :
    AnswersWindow E n tick jMessage m ↔
      m.start.toNat + m.count.toNat < 2 ^ 32 ∨
        ∀ p ∈ Paging.window n.peers m.start.toNat (m.start.toNat + m.count.toNat),
          p = m.fromPeer := by
  rw [answersWindow_iff h, requestedPeers]
  rcases Nat.lt_or_ge (m.start.toNat + m.count.toNat) (2 ^ 32) with hfits | hwraps
  · rw [UInt32.toNat_add, Nat.mod_eq_of_lt hfits]
    exact iff_of_true rfl (Or.inl hfits)
  · -- the end wraps to a position in front of the start
    have hend : (m.start + m.count).toNat ≤ m.start.toNat := by
      have hstart := m.start.toNat_lt
      have hcount := m.count.toNat_lt
      rw [UInt32.toNat_add]
      omega
    have hempty : Paging.window n.peers m.start.toNat (m.start + m.count).toNat = [] := by
      rw [Paging.window_eq, List.drop_eq_nil_iff, List.length_take]
      omega
    rw [hempty, List.filter_nil, eq_comm, List.filter_eq_nil_iff]
    constructor
    · intro hnobody
      right
      simpa using hnobody
    · rintro (hfits | hnobody)
      · exact absurd hfits (Nat.not_lt.2 hwraps)
      · simpa using hnobody

/-- A node that knows two peers. -/
def knowing : Node :=
  SmallNet.node FirstBlock.config
    [{ host := "127.0.0.1", port := 8006, publicKey := "first" },
      { host := "127.0.0.1", port := 8007, publicKey := "second" }] KeyedTable.Table.empty

/-- The request of the asker for a window of this node's peers. -/
def windowRequest (start count : UInt32) : PeerListMessage :=
  PeerListMessage.create (FirstBlock.tick "1") ChatService.asker FirstBlock.config.me start count

theorem peer_page_is_window_knowing :
    AnswersWindow testEnv knowing (FirstBlock.tick "2") (windowRequest 0 12).serialize
      (windowRequest 0 12) :=
  (peer_page_is_window_iff (decode_peerList rfl)).2 (Or.inl (by decide))

/-- A window up to the end of the range does not show the second peer. -/
theorem wrapped_window_empty :
    ¬ AnswersWindow testEnv knowing (FirstBlock.tick "2") (windowRequest 1 4294967295).serialize
      (windowRequest 1 4294967295) := by
  rw [answersWindow_iff (decode_peerList rfl)]
  decide

/-! ## The loops of `init` -/

/-- The positions that a request with this start asks for. -/
def interval (batch start : UInt32) : Set Nat :=
  Set.Ico start.toNat (start.toNat + batch.toNat)

/-- The loop ends, and its requests ask for every position below the count, in as few disjoint
intervals as it takes. -/
def EndsAndCovers (batch count : UInt32) : Prop :=
  ∃ fuel starts, requestStarts batch count fuel 0 = some starts ∧
    starts.length = (count.toNat + batch.toNat - 1) / batch.toNat ∧
    starts.Pairwise (fun a b => Disjoint (interval batch a) (interval batch b)) ∧
    ∀ i < count.toNat, ∃ start ∈ starts, i ∈ interval batch start

/-- While `start` is a multiple of 4 it never reaches a count above `2^32 - 4`. -/
theorem requestStarts_eq_none {batch count : UInt32} (hfour : 4 ∣ batch.toNat)
    (hcount : 2 ^ 32 - 4 < count.toNat) (fuel : Nat) {start : UInt32} (hstart : 4 ∣ start.toNat) :
    requestStarts batch count fuel start = none := by
  induction fuel generalizing start with
  | zero => rfl
  | succ fuel ih =>
      have hlt := start.toNat_lt
      have hmore : start < count := by
        rw [UInt32.lt_iff_toNat_lt]
        omega
      have hnext : 4 ∣ (start + batch).toNat := by
        rw [UInt32.toNat_add]
        omega
      rw [requestStarts, if_pos hmore, ih hnext, Option.map_none]

/-- With a batch like the two of `init`, the loop does its work if and only if the count is at most
`2^32 - 4`. -/
theorem endsAndCovers_iff {batch count : UInt32} (hfour : 4 ∣ batch.toNat)
    (hdvd : batch.toNat ∣ 2 ^ 32 - 4) :
    EndsAndCovers batch count ↔ count.toNat ≤ 2 ^ 32 - 4 := by
  have hbatch : 0 < batch.toNat := Nat.pos_of_dvd_of_pos hdvd (by decide)
  constructor
  · rintro ⟨fuel, starts, hloop, _⟩
    -- a larger count lies past the last multiple of the batch, and the counter wraps first
    by_contra hlarge
    rw [requestStarts_eq_none hfour (Nat.lt_of_not_le hlarge) fuel (by decide)] at hloop
    cases hloop
  · intro hsmall
    -- below it no addition wraps, so the starts are those of the numbers
    have hroom := Paging.mul_pages_le hbatch hdvd hsmall
    have hcast : ∀ s ∈ Paging.starts batch.toNat (Paging.pages batch.toNat count.toNat),
        (UInt32.ofNat s).toNat = s := fun s hs => toNat_of_mem_starts hbatch count.toNat_lt hs
    refine ⟨count.toNat + 1, _, requestStarts_of_room hbatch (by omega) (Nat.lt_succ_self _), ?_,
      ?_, ?_⟩
    · simp [Paging.starts, Paging.pages]
    · rw [List.pairwise_map]
      refine (Paging.starts_pairwise _ _).imp_of_mem ?_
      intro a b ha hb hab
      rw [interval, interval, hcast a ha, hcast b hb, Set.Ico_disjoint_Ico]
      omega
    · intro i hi
      rcases Paging.exists_start (Nat.lt_of_lt_of_le hi (Paging.pages_spec _ hbatch).1) with
        ⟨s, hs, hfirst, hlast⟩
      refine ⟨_, List.mem_map_of_mem hs, ?_⟩
      rw [interval, hcast s hs]
      exact ⟨hfirst, hlast⟩

/-- Both loops of `init` end and cover if and only if the two counts of the CONNECT_RESPONSE are at
most `2^32 - 4`. -/
theorem request_loops_iff (n : Node) (response : ConnectionMessageResponse) :
    (EndsAndCovers peersBatchSize
        (ChatService.handleOutgoingConnectionMessage n response).peersToReceive ∧
      EndsAndCovers blocksBatchSize
        (ChatService.handleOutgoingConnectionMessage n response).missingBlocksCount) ↔
      response.peersToReceive.toNat ≤ 2 ^ 32 - 4 ∧
        response.missingBlocksCount.toNat ≤ 2 ^ 32 - 4 :=
  and_congr (endsAndCovers_iff (by decide) (by decide)) (endsAndCovers_iff (by decide) (by decide))

/-- With a count above it the first loop runs for ever. -/
theorem full_count_never_ends :
    ¬ EndsAndCovers peersBatchSize (ChatService.handleOutgoingConnectionMessage knowing
      (ConnectionMessageResponse.create (FirstBlock.tick "2") FirstBlock.config.me
        ChatService.asker 4294967295 0)).peersToReceive := by
  rintro ⟨fuel, starts, hloop, _⟩
  rw [requestStarts_eq_none (by decide) (by decide) fuel (by decide)] at hloop
  cases hloop

end Counters
end Network
end DChat
