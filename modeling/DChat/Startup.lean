import DChat.Exchange

/-!
# Startup — what a node asks for before it runs

`ChatApplication::init` sends a CONNECT to every trusted host, then asks the first of its peers for
the peers and the blocks that it is missing, and inserts the blocks when they are valid.  How much
it asks for stands in two global counters, which every answer to a CONNECT overwrites: they are
about the last host, while the first one is asked.

The server of the node is not started before `init` is over, so nothing comes in.
-/

namespace DChat
namespace Network
namespace Startup

open Utils Crypto Peer Messaging Blockchain BlockchainService Chat Request PartyMap TCPClient
open LinkedChain

/-! ## The run of `init` -/

/-- The nodes that listen, the one that starts, and what was thrown: nothing is done after that. -/
structure State where
  net : Nodes
  client : Node
  thrown : Option Exn := none

/-- The clocks at a message and at its answer. -/
structure Moment where
  sent : Tick
  visit : Visit

/-- A message of the client, where it goes, and what it finds there. -/
structure Call where
  host : UserHost
  visit : Visit
  jMessage : Json

/-- What comes from outside: the trusted hosts, and the clocks. -/
structure Outside where
  hosts : List (UserHost × Moment)
  peerMoments : UInt32 → Moment
  blockMoments : UInt32 → Moment

def connectCall (me : UserPeer) (lastHash : String) (x : UserHost × Moment) : Call where
  host := x.1
  visit := x.2.visit
  jMessage :=
    (ConnectionMessage.create x.2.sent me { x.1 with publicKey := "" } lastHash).serialize

def peerListCall (me recipient : UserPeer) (moments : UInt32 → Moment) (start : UInt32) :
    Call where
  host := recipient.toUserHost
  visit := (moments start).visit
  jMessage :=
    (PeerListMessage.create (moments start).sent me recipient start peersBatchSize).serialize

def blockRangeCall (me recipient : UserPeer) (lastHash : String) (moments : UInt32 → Moment)
    (start : UInt32) : Call where
  host := recipient.toUserHost
  visit := (moments start).visit
  jMessage := (BlockRangeMessage.create (moments start).sent me recipient start blocksBatchSize
    lastHash).serialize

variable (E : Env)

/-- `TCPClient::sendMessage`; when nobody listens only the size is checked. -/
def send (s : State) (c : Call) : State :=
  if s.thrown.isSome then
    s
  else
    match s.net c.host with
    | none =>
        match checkSize c.jMessage with
        | .ok _ => s
        | .error e => { s with thrown := some e }
    | some server =>
        match sendMessage E server s.client c.visit c.jMessage with
        | .ok (server, client) =>
            { s with net := Function.update s.net c.host (some server), client }
        | .error e => { s with thrown := some e }

def sendAll (s : State) (calls : List Call) : State := calls.foldl (send E) s

/-- The end of `init`.  When the blocks are not valid a line is printed. -/
def insertReceived (s : State) : State :=
  match s.thrown, validateNewBlocks E s.client.chain s.client.newBlocks with
  | none, .ok true =>
      { s with
        client := { s.client with
          chain := (insertNewBlocks s.client.chain s.client.newBlocks).1 } }
  | _, _ => s

/-- The state after `init`, whom it asked, the starts of the peer pages, and all messages. -/
structure Result where
  state : State
  peer : Option UserPeer
  peerStarts : List UInt32
  calls : List Call

/-- `ChatApplication::init` from the constructor of `TCPClient` on, up to the connections to all
peers at its end; `none` when a loop is still running after `fuel` rounds.  The outcome of
`validateLocalChain` is only printed. -/
def init (out : Outside) (fuel : Nat) (s : State) : Option Result := do
  let me := s.client.config.me
  let lastHash := tipHash s.client.chain
  let connects := out.hosts.map (connectCall me lastHash)
  let connected := sendAll E s connects
  match connected.client.peers with
  | [] =>
      return { state := insertReceived E connected, peer := none, peerStarts := []
               calls := connects }
  | peer :: _ =>
      let peerStarts ← requestStarts peersBatchSize connected.client.peersToReceive fuel 0
      let peerCalls := peerStarts.map (peerListCall me peer out.peerMoments)
      let listed := sendAll E connected peerCalls
      let blockStarts ← requestStarts blocksBatchSize listed.client.missingBlocksCount fuel 0
      let blockCalls := blockStarts.map (blockRangeCall me peer lastHash out.blockMoments)
      let ranged := sendAll E listed blockCalls
      return { state := insertReceived E ranged, peer := some peer, peerStarts
               calls := connects ++ peerCalls ++ blockCalls }

/-- Every message and every answer fits into the buffers, and nothing is thrown. -/
def AllArrive (s : State) : List Call → Prop
  | [] => s.thrown = none
  | c :: cs => (∀ server ∈ s.net c.host, Arrives E server c.visit c.jMessage) ∧
      AllArrive (send E s c) cs

instance decidableAllArrive : (s : State) → (calls : List Call) → Decidable (AllArrive E s calls)
  | s, [] => inferInstanceAs (Decidable (s.thrown = none))
  | s, c :: cs =>
      have := decidableAllArrive (send E s c) cs
      inferInstanceAs (Decidable ((∀ server ∈ s.net c.host, Arrives E server c.visit c.jMessage) ∧
        AllArrive E (send E s c) cs))

/-- A host that a node can rely on: its chain is valid, extends the chain of the node and never
lost a row, and its lists fit the counters of the loops. -/
structure Honest (client host : Node) : Prop where
  valid : validateLocalChain E host.chain = .ok true
  longer : ChainDB.loadAllBlocks client.chain <+: ChainDB.loadAllBlocks host.chain
  ids : ConsecutiveIds host.chain 1
  blocks : host.chain.rows.length + 4 < 2 ^ 32
  peers : (PeerService.addPeer host.peers client.config.me).length + 12 < 2 ^ 32

/-- The pages that start there reach every position below the count. -/
def Covers (starts : List UInt32) (count : Nat) : Prop :=
  ∀ i < count, ∃ start ∈ starts, start.toNat ≤ i ∧ i < start.toNat + 12

/-- The node has asked its first peer for all of the peers that this one reported, and has the
chain of this peer. -/
def CatchesUp (result : Result) (reported : UInt32) : Prop :=
  ∃ peer server, result.peer = some peer ∧ result.state.net peer.toUserHost = some server ∧
    Covers result.peerStarts reported.toNat ∧
    ChainDB.loadAllBlocks result.state.client.chain = ChainDB.loadAllBlocks server.chain

variable {E}

/-! ## CONNECT -/

/-- A host after a CONNECT. -/
def greeted (me : UserPeer) (n : Node) : Node :=
  { n with peers := PeerService.addPeer n.peers me }

theorem greeted_greeted (me : UserPeer) (n : Node) : greeted me (greeted me n) = greeted me n := by
  rw [greeted, greeted, PeerService.addPeer_addPeer]

/-- A message to a node that listens. -/
theorem send_of_ok {s : State} {c : Call} {server server' client' : Node}
    (hrunning : s.thrown = none) (hserver : s.net c.host = some server)
    (hsent : sendMessage E server s.client c.visit c.jMessage = .ok (server', client')) :
    send E s c =
      { s with net := Function.update s.net c.host (some server'), client := client' } := by
  simp only [send, hrunning, Option.isSome_none, hserver, hsent]
  rfl

/-- What `sendMessage` may do: throw or meet nobody, or bring both ends a step further. -/
theorem send_cases (s : State) (c : Call) :
    (∃ thrown, send E s c = { s with thrown }) ∨
      ∃ server server' client', s.net c.host = some server ∧
        sendMessage E server s.client c.visit c.jMessage = .ok (server', client') ∧
        send E s c =
          { s with net := Function.update s.net c.host (some server'), client := client' } := by
  rw [send]
  split_ifs with hthrown
  · exact Or.inl ⟨s.thrown, rfl⟩
  · cases hserver : s.net c.host with
    | none =>
        left
        cases checkSize c.jMessage with
        | ok => exact ⟨s.thrown, rfl⟩
        | error e => exact ⟨some e, rfl⟩
    | some server =>
        dsimp only
        cases hsent : sendMessage E server s.client c.visit c.jMessage with
        | ok nodes => exact Or.inr ⟨server, nodes.1, nodes.2, rfl, hsent, rfl⟩
        | error e => exact Or.inl ⟨some e, rfl⟩

/-- What was thrown stays thrown. -/
theorem running_of_send {s : State} {c : Call} (h : (send E s c).thrown = none) :
    s.thrown = none := by
  rw [send] at h
  split at h
  · exact h
  · rename_i hrunning
    simpa using hrunning

theorem AllArrive.running {s : State} {calls : List Call} (h : AllArrive E s calls) :
    s.thrown = none := by
  induction calls generalizing s with
  | nil => exact h
  | cons c cs ih => exact running_of_send (ih h.2)

theorem sendAll_concat (s : State) (calls : List Call) (c : Call) :
    sendAll E s (calls ++ [c]) = send E (sendAll E s calls) c := by
  rw [sendAll, List.foldl_append]
  rfl

theorem sendAll_append (s : State) (calls more : List Call) :
    sendAll E s (calls ++ more) = sendAll E (sendAll E s calls) more := List.foldl_append ..

theorem allArrive_append {s : State} {calls more : List Call} :
    AllArrive E s (calls ++ more) ↔ AllArrive E s calls ∧ AllArrive E (sendAll E s calls) more := by
  induction calls generalizing s with
  | nil => exact ⟨fun h => ⟨h.running, h⟩, fun h => h.2⟩
  | cons c cs ih =>
      rw [List.cons_append, AllArrive, AllArrive, ih, and_assoc]
      rfl

theorem send_connect {s : State} {x : UserHost × Moment} {lastHash : String} {n : Node}
    (hrunning : s.thrown = none) (hn : s.net x.1 = some n)
    (harrives : Arrives E n x.2.visit (connectCall s.client.config.me lastHash x).jMessage) :
    send E s (connectCall s.client.config.me lastHash x) =
      { net := Function.update s.net x.1 (some (greeted s.client.config.me n))
        client := { s.client with
          peers := PeerService.addPeer s.client.peers
            { x.1 with publicKey := n.config.publicKey }
          peersToReceive := UInt32.ofNat (greeted s.client.config.me n).peers.length
          missingBlocksCount := ChainDB.countBlocksAfterHash n.chain lastHash } } := by
  have hsent := send_of_ok (c := connectCall s.client.config.me lastHash x) hrunning hn
    (sendMessage_connect harrives)
  rw [hsent, hrunning]
  rfl

/-- What the CONNECTs leave: the first peer is the first host, the counters are those of the last
host, and every host knows the client or is as it was. -/
structure Connected (hosts : List (UserHost × Moment)) (lastHash : String) (s s' : State) :
    Prop where
  config : s'.client.config = s.client.config
  chain : s'.client.chain = s.client.chain
  newBlocks : s'.client.newBlocks = s.client.newBlocks
  net : Moved (fun _ n n' => n' = n ∨ n' = greeted s.client.config.me n) s.net s'.net
  first : ∀ x, hosts.head? = some x → ∀ n, s.net x.1 = some n →
    s'.client.peers.head? = some { x.1 with publicKey := n.config.publicKey }
  last : ∀ x, hosts.getLast? = some x → ∀ n, s.net x.1 = some n →
    s'.client.peersToReceive = UInt32.ofNat (greeted s.client.config.me n).peers.length ∧
      s'.client.missingBlocksCount = ChainDB.countBlocksAfterHash n.chain lastHash

theorem head?_addPeer {peers : List UserPeer} {p q : UserPeer} (h : peers.head? = some q) :
    (PeerService.addPeer peers p).head? = some q := by
  by_cases hp : p ∈ peers <;> simp [PeerService.addPeer, hp, h]

theorem connectAll_spec {hosts : List (UserHost × Moment)} {lastHash : String} {s : State}
    (hpeers : s.client.peers = []) (hreachable : ∀ x ∈ hosts, ∃ n, s.net x.1 = some n)
    (harrive : AllArrive E s (hosts.map (connectCall s.client.config.me lastHash))) :
    Connected hosts lastHash s
      (sendAll E s (hosts.map (connectCall s.client.config.me lastHash))) := by
  induction hosts using List.reverseRecOn with
  | nil =>
      have hnet : Moved (fun _ n n' => n' = n ∨ n' = greeted s.client.config.me n) s.net s.net :=
        Moved.refl (R := fun _ n n' => n' = n ∨ n' = greeted s.client.config.me n)
          (fun _ _ => Or.inl rfl) _
      exact ⟨rfl, rfl, rfl, hnet, by simp, by simp⟩
  | append_singleton xs x ih =>
      rw [List.map_append, List.map_singleton, allArrive_append] at harrive
      rcases harrive with ⟨hearlier, hlast, hthrown⟩
      have hbefore := ih (fun y hy => hreachable y (by simp [hy])) hearlier
      rw [List.map_append, List.map_singleton, sendAll_concat]
      let s₁ := sendAll E s (xs.map (connectCall s.client.config.me lastHash))
      rcases hreachable x (by simp) with ⟨n, hn⟩
      rcases hbefore.net.of_some hn with ⟨n₁, hn₁, hmoved⟩
      have hme : s₁.client.config.me = s.client.config.me := congrArg Config.me hbefore.config
      have hsent : send E s₁ (connectCall s.client.config.me lastHash x) =
          { net := Function.update s₁.net x.1 (some (greeted s.client.config.me n))
            client := { s₁.client with
              peers := PeerService.addPeer s₁.client.peers
                { x.1 with publicKey := n.config.publicKey }
              peersToReceive := UInt32.ofNat (greeted s.client.config.me n).peers.length
              missingBlocksCount := ChainDB.countBlocksAfterHash n.chain lastHash } } := by
        have hcall := send_connect (running_of_send hthrown) hn₁ (hme.symm ▸ hlast n₁ hn₁)
        rw [hme] at hcall
        rw [hcall]
        rcases hmoved with rfl | rfl
        · rfl
        · rw [greeted_greeted]
          rfl
      have hnet : Moved (fun _ n n' => n' = n ∨ n' = greeted s.client.config.me n) s.net
          (Function.update s₁.net x.1 (some (greeted s.client.config.me n))) := by
        intro k
        by_cases hk : k = x.1
        · rw [hk, Function.update_self, hn]
          exact .some (Or.inr rfl)
        · rw [Function.update_of_ne hk]
          exact hbefore.net k
      rw [hsent]
      refine ⟨hbefore.config, hbefore.chain, hbefore.newBlocks, hnet, ?_, ?_⟩
      · intro y hy m hm
        cases xs with
        | nil =>
            -- the first host of all
            have hxy : x = y := by simpa using hy
            subst hxy
            rcases Option.some.inj (hn.symm.trans hm) with rfl
            have hnobody : s₁.client.peers = [] := hpeers
            simp [hnobody, PeerService.addPeer]
        | cons z zs => exact head?_addPeer (hbefore.first y (by simpa using hy) m hm)
      · intro y hy m hm
        have hxy : x = y := by simpa using hy
        subst hxy
        rcases Option.some.inj (hn.symm.trans hm) with rfl
        exact ⟨rfl, rfl⟩

/-! ## PEER_LIST and BLOCK_RANGE -/

/-- Only the peers may differ. -/
structure Quiet (s s' : State) : Prop where
  net : s'.net = s.net
  client : s'.client = { s.client with peers := s'.client.peers }

theorem Quiet.trans {s s' s'' : State} (h : Quiet s s') (h' : Quiet s' s'') : Quiet s s'' :=
  ⟨h'.net.trans h.net, by rw [h'.client, h.client]⟩

/-- A peer page changes nothing but the peers of the client, whether it arrives or not. -/
theorem send_peerList (s : State) (me recipient : UserPeer) (moments : UInt32 → Moment)
    (start : UInt32) : Quiet s (send E s (peerListCall me recipient moments start)) := by
  rcases send_cases (E := E) s (peerListCall me recipient moments start) with
    ⟨thrown, hsend⟩ | ⟨server, server', client', hserver, hsent, hsend⟩
  · exact hsend.symm ▸ ⟨rfl, rfl⟩
  · rcases sendMessage_peerList_peers (E := E) server s.client (moments start).visit
      (moments start).sent me recipient start peersBatchSize with ⟨e, hthrown⟩ | ⟨peers, hpeers⟩
    · exact absurd (hthrown.symm.trans hsent) (by simp)
    · cases hpeers.symm.trans hsent
      rw [hsend, ← hserver, Function.update_eq_self]
      exact ⟨rfl, rfl⟩

theorem sendAll_peerList (s : State) (me recipient : UserPeer) (moments : UInt32 → Moment)
    (starts : List UInt32) :
    Quiet s (sendAll E s (starts.map (peerListCall me recipient moments))) := by
  induction starts generalizing s with
  | nil => exact ⟨rfl, rfl⟩
  | cons start starts ih => exact (send_peerList s me recipient moments start).trans (ih _)

/-- The block pages are put together. -/
theorem sendAll_blockRange {s : State} {recipient : UserPeer} {lastHash : String} {server : Node}
    (hserver : s.net recipient.toUserHost = some server) (moments : UInt32 → Moment)
    (starts : List UInt32) (harrive : AllArrive E s
      (starts.map (blockRangeCall s.client.config.me recipient lastHash moments))) :
    sendAll E s (starts.map (blockRangeCall s.client.config.me recipient lastHash moments)) =
      { s with
        client := { s.client with
          newBlocks := starts.foldl (fun newBlocks start => addNewBlockRange newBlocks
            (ChainDB.getBlocksByIndexRange server.chain start blocksBatchSize lastHash))
              s.client.newBlocks } } := by
  induction starts generalizing s with
  | nil => rfl
  | cons start starts ih =>
      have hrunning := harrive.running
      rcases harrive with ⟨hfirst, hrest⟩
      -- a page goes into memory, and the server stays what it was
      have hsend : send E s (blockRangeCall s.client.config.me recipient lastHash moments start) =
          { s with
            client := { s.client with
              newBlocks := addNewBlockRange s.client.newBlocks (ChainDB.getBlocksByIndexRange
                server.chain start blocksBatchSize lastHash) } } := by
        have harrives : Arrives E server (moments start).visit (BlockRangeMessage.create
            (moments start).sent s.client.config.me recipient start blocksBatchSize
              lastHash).serialize := hfirst server hserver
        have hsent := send_of_ok
          (c := blockRangeCall s.client.config.me recipient lastHash moments start) hrunning hserver
          (sendMessage_blockRange harrives)
        rw [hsent, blockRangeCall, ← hserver, Function.update_eq_self]
        rfl
      rw [hsend] at hrest
      rw [List.map_cons, sendAll, List.foldl_cons, hsend]
      exact ih hserver hrest

/-! ## The end -/

/-- The blocks of the pages continue the chain, so they are inserted. -/
theorem insertReceived_continues {s : State} {B : List Block} (hrunning : s.thrown = none)
    (hreceived : s.client.newBlocks = B)
    (hvalid : ValidBlocks E (ChainDB.loadAllBlocks s.client.chain ++ B))
    (hstorable : ∀ b ∈ B, b.Storable)
    (hnodup : ((ChainDB.loadAllBlocks s.client.chain ++ B).map Block.hash).Nodup) :
    (insertReceived E s).net = s.net ∧
      ChainDB.loadAllBlocks (insertReceived E s).client.chain =
        ChainDB.loadAllBlocks s.client.chain ++ B := by
  subst hreceived
  rw [insertReceived, hrunning, validateNewBlocks_continues hvalid hstorable]
  exact ⟨rfl, (insertNewBlocks_continues hvalid hstorable hnodup).2⟩

/-- The number of blocks of the host that the client does not have. -/
def missing (client host : Node) : Nat :=
  (ChainDB.loadAllBlocks host.chain).length - (ChainDB.loadAllBlocks client.chain).length

/-- The pages cover exactly what lies in front of the end of the last one. -/
theorem covers_starts {count reported : Nat} (hcount : count + 12 < 2 ^ 32) :
    Covers ((Paging.starts 12 (Paging.pages 12 count)).map UInt32.ofNat) reported ↔
      reported ≤ 12 * Paging.pages 12 count := by
  have hcast : ∀ s ∈ Paging.starts 12 (Paging.pages 12 count), (UInt32.ofNat s).toNat = s :=
    fun s hs => toNat_of_mem_starts (by decide) (Nat.lt_of_add_right_lt hcount) hs
  constructor
  · intro hcovers
    by_contra hmore
    -- the position behind the last page
    rcases hcovers (12 * Paging.pages 12 count) (Nat.lt_of_not_le hmore) with
      ⟨start, hstart, _, hlast⟩
    rcases List.mem_map.1 hstart with ⟨s, hs, rfl⟩
    rw [hcast s hs] at hlast
    rcases List.mem_map.1 hs with ⟨j, hj, rfl⟩
    have hjlt := List.mem_range.1 hj
    omega
  · intro hreach i hi
    rcases Paging.exists_start (Nat.lt_of_lt_of_le hi hreach) with ⟨s, hs, hpage⟩
    refine ⟨UInt32.ofNat s, List.mem_map_of_mem hs, ?_⟩
    rw [hcast s hs]
    exact hpage

/-- The rest of the host's chain, and how the host counts and sends it. -/
theorem Honest.rest {client host : Node} (h : Honest E client host) :
    ∃ B, ChainDB.loadAllBlocks host.chain = ChainDB.loadAllBlocks client.chain ++ B ∧
      B.length = missing client host ∧
      (ChainDB.countBlocksAfterHash host.chain (tipHash client.chain)).toNat =
        missing client host ∧
      ∀ start batch, ChainDB.getBlocksByIndexRange host.chain start batch (tipHash client.chain) =
        Paging.page batch.toNat B start.toNat := by
  have hvalid := validateLocalChain_eq_true.1 h.valid
  have hrows : host.chain.rows.length < 2 ^ 32 := by
    have hblocks := h.blocks
    omega
  rcases h.longer with ⟨B, hsplit⟩
  have hlen : B.length = missing client host := by
    rw [missing, ← hsplit, List.length_append, Nat.add_sub_cancel_left]
  have hcount := countBlocksAfterHash_rest h.ids hvalid hsplit.symm hrows
  have hpages := (rest_of_chain h.ids hvalid hsplit.symm hrows).2.2
  exact ⟨B, hsplit.symm, hlen, hcount.trans hlen, hpages⟩

theorem Honest.greeted {client host : Node} (h : Honest E client host) :
    Honest E client (greeted client.config.me host) where
  valid := h.valid
  longer := h.longer
  ids := h.ids
  blocks := h.blocks
  peers := by
    have hsame := PeerService.addPeer_addPeer host.peers client.config.me
    exact hsame.symm ▸ h.peers

theorem Honest.of_client {client client' host : Node} (h : Honest E client host)
    (hchain : client'.chain = client.chain) (hconfig : client'.config = client.config) :
    Honest E client' host where
  valid := h.valid
  longer := hchain.symm ▸ h.longer
  ids := h.ids
  blocks := h.blocks
  peers := hconfig.symm ▸ h.peers

/-- The last part of `init`: of the rest of the host's chain the client gets as many pages as it
asks for, and inserts what it gets. -/
theorem insert_ranges {s : State} {peer : UserPeer} {server : Node}
    (hserver : s.net peer.toUserHost = some server) (hhonest : Honest E s.client server)
    (hblocks : s.client.newBlocks = []) {count : Nat} (hcount : count + 4 < 2 ^ 32)
    (moments : UInt32 → Moment) {calls : List Call}
    (hcalls : calls = ((Paging.starts 4 (Paging.pages 4 count)).map UInt32.ofNat).map
      (blockRangeCall s.client.config.me peer (tipHash s.client.chain) moments))
    (harrive : AllArrive E s calls) :
    (insertReceived E (sendAll E s calls)).net = s.net ∧
      ChainDB.loadAllBlocks (insertReceived E (sendAll E s calls)).client.chain =
        (ChainDB.loadAllBlocks server.chain).take
          ((ChainDB.loadAllBlocks s.client.chain).length + 4 * Paging.pages 4 count) := by
  subst hcalls
  rcases hhonest.rest with ⟨B, hsplit, _, _, hpage⟩
  have hreceived := sendAll_blockRange hserver moments _ harrive
  have hbatch : 0 < blocksBatchSize.toNat := by decide
  have hpages := requestBlocks_take hbatch hcount hpage
  rw [hblocks] at hreceived
  -- what the pages bring is a part of a valid chain
  have hpart : ChainDB.loadAllBlocks s.client.chain ++ B.take (4 * Paging.pages 4 count) <+:
      ChainDB.loadAllBlocks server.chain := by
    rw [hsplit]
    exact (List.prefix_append_right_inj _).2 (List.take_prefix _ _)
  have hwhole := validateLocalChain_eq_true.1 hhonest.valid
  have hvalid := hwhole.of_prefix hpart
  have hnodup := (ChainDB.hashes_nodup server.chain).sublist (hpart.sublist.map Block.hash)
  have hstorable : ∀ b ∈ B.take (4 * Paging.pages 4 count), b.Storable := by
    intro b hb
    exact ChainDB.storable_of_mem (hpart.subset (List.mem_append_right _ hb))
  have hend := insertReceived_continues (E := E) (s := sendAll E s _) (B := B.take
    (4 * Paging.pages 4 count)) (by rw [hreceived]; exact harrive.running)
    (by rw [hreceived]; exact hpages) (by rw [hreceived]; exact hvalid)
    hstorable (by rw [hreceived]; exact hnodup)
  rw [hreceived] at hend ⊢
  refine ⟨hend.1, hend.2.trans ?_⟩
  rw [hsplit, List.take_length_add_append]

/-- What `init` asks for and ends with, when the first and the last host are honest. -/
theorem init_spec {out : Outside} {s : State} (hpeers : s.client.peers = [])
    (hblocks : s.client.newBlocks = []) {first last : UserHost × Moment} {n₁ n₂ : Node}
    (hfirst : out.hosts.head? = some first) (hlast : out.hosts.getLast? = some last)
    (hn₁ : s.net first.1 = some n₁) (hn₂ : s.net last.1 = some n₂)
    (hhonest₁ : Honest E s.client n₁) (hhonest₂ : Honest E s.client n₂)
    (hreachable : ∀ x ∈ out.hosts, ∃ n, s.net x.1 = some n)
    (harrive : AllArrive E s
      (out.hosts.map (connectCall s.client.config.me (tipHash s.client.chain)))) :
    ∃ result, (∀ fuel, (greeted s.client.config.me n₂).peers.length < fuel →
        missing s.client n₂ < fuel → init E out fuel s = some result) ∧
      result.peer = some { first.1 with publicKey := n₁.config.publicKey } ∧
      result.peerStarts = (Paging.starts 12 (Paging.pages 12
        (greeted s.client.config.me n₂).peers.length)).map UInt32.ofNat ∧
      (AllArrive E s result.calls →
        (∃ server, result.state.net first.1 = some server ∧ server.chain = n₁.chain) ∧
        ChainDB.loadAllBlocks result.state.client.chain =
          (ChainDB.loadAllBlocks n₁.chain).take ((ChainDB.loadAllBlocks s.client.chain).length +
            4 * Paging.pages 4 (missing s.client n₂))) := by
  let me := s.client.config.me
  let lastHash := tipHash s.client.chain
  let connects := out.hosts.map (connectCall me lastHash)
  let connected := sendAll E s connects
  have hconnected : Connected out.hosts lastHash s connected :=
    connectAll_spec hpeers hreachable harrive
  let peer : UserPeer := { first.1 with publicKey := n₁.config.publicKey }
  -- the first peer is the first host
  have hhead : ∃ others, connected.client.peers = peer :: others := by
    have hpeer := hconnected.first first hfirst n₁ hn₁
    cases hlist : connected.client.peers with
    | nil => simp [hlist] at hpeer
    | cons p ps =>
        rw [hlist] at hpeer
        exact ⟨ps, by rw [Option.some.inj hpeer]⟩
  rcases hhead with ⟨others, hothers⟩
  -- the counters are those of the last host
  rcases hconnected.last last hlast n₂ hn₂ with ⟨hpeerCount, hblockCount⟩
  have hsize : (greeted me n₂).peers.length + 12 < 2 ^ 32 := hhonest₂.peers
  have hpeerCount' : connected.client.peersToReceive.toNat = (greeted me n₂).peers.length := by
    rw [hpeerCount, UInt32.toNat_ofNat']
    exact Nat.mod_eq_of_lt (Nat.lt_of_le_of_lt (Nat.le_add_right _ 12) hsize)
  let peerStarts := (Paging.starts 12 (Paging.pages 12 (greeted me n₂).peers.length)).map
    UInt32.ofNat
  let peerCalls := peerStarts.map (peerListCall me peer out.peerMoments)
  let listed := sendAll E connected peerCalls
  have hlisted : Quiet connected listed := sendAll_peerList connected me peer out.peerMoments _
  have hblockCount' : listed.client.missingBlocksCount.toNat = missing s.client n₂ := by
    rcases hhonest₂.rest with ⟨_, _, _, hcount, _⟩
    rw [hlisted.client]
    exact (congrArg UInt32.toNat hblockCount).trans hcount
  have hroom : missing s.client n₂ + 4 < 2 ^ 32 := by
    have hrows := hhonest₂.blocks
    have hload : (ChainDB.loadAllBlocks n₂.chain).length = n₂.chain.rows.length := by
      rw [ChainDB.loadAllBlocks, List.length_map, KeyedTable.Table.data, List.length_map]
    rw [missing]
    omega
  let blockStarts := (Paging.starts 4 (Paging.pages 4 (missing s.client n₂))).map UInt32.ofNat
  let blockCalls := blockStarts.map (blockRangeCall me peer lastHash out.blockMoments)
  let result : Result :=
    { state := insertReceived E (sendAll E listed blockCalls), peer := some peer, peerStarts
      calls := connects ++ peerCalls ++ blockCalls }
  have hinit : ∀ fuel, (greeted me n₂).peers.length < fuel → missing s.client n₂ < fuel →
      init E out fuel s = some result := by
    intro fuel hfuel hfuel'
    have hpeerStarts : requestStarts peersBatchSize connected.client.peersToReceive fuel 0 =
        some peerStarts := by
      have hbatch : 0 < peersBatchSize.toNat := by decide
      have hroom : connected.client.peersToReceive.toNat + peersBatchSize.toNat < 2 ^ 32 :=
        hpeerCount'.symm ▸ hsize
      rw [requestStarts_pages hbatch hroom (hpeerCount'.symm ▸ hfuel), hpeerCount']
      rfl
    have hblockStarts : requestStarts blocksBatchSize listed.client.missingBlocksCount fuel 0 =
        some blockStarts := by
      have hbatch : 0 < blocksBatchSize.toNat := by decide
      have hroom' : listed.client.missingBlocksCount.toNat + blocksBatchSize.toNat < 2 ^ 32 :=
        hblockCount'.symm ▸ hroom
      rw [requestStarts_pages hbatch hroom' (hblockCount'.symm ▸ hfuel'), hblockCount']
      rfl
    have hrun : init E out fuel s = (requestStarts peersBatchSize connected.client.peersToReceive
        fuel 0).bind fun peerStarts =>
          let peerCalls := peerStarts.map (peerListCall me peer out.peerMoments)
          let listed := sendAll E connected peerCalls
          (requestStarts blocksBatchSize listed.client.missingBlocksCount fuel 0).bind
            fun blockStarts =>
              let blockCalls := blockStarts.map (blockRangeCall me peer lastHash out.blockMoments)
              some { state := insertReceived E (sendAll E listed blockCalls), peer := some peer
                     peerStarts, calls := connects ++ peerCalls ++ blockCalls } := by
      simp only [connected, connects, me, lastHash] at hothers
      simp only [init, hothers]
      rfl
    rw [hrun, hpeerStarts, Option.bind_some]
    exact congrArg (fun starts => Option.bind starts _) hblockStarts
  refine ⟨result, hinit, rfl, rfl, ?_⟩
  intro harriveAll
  have hserved := (allArrive_append.1 harriveAll).2
  rw [sendAll_append] at hserved
  rcases hconnected.net.of_some hn₁ with ⟨server, hserver, hmoved⟩
  have hhonest : Honest E s.client server := by
    rcases hmoved with rfl | rfl
    · exact hhonest₁
    · exact hhonest₁.greeted
  have hchain : listed.client.chain = s.client.chain := by
    rw [hlisted.client]
    exact hconnected.chain
  have hconfig : listed.client.config = s.client.config := by
    rw [hlisted.client]
    exact hconnected.config
  have hserver' : listed.net peer.toUserHost = some server := by
    rw [hlisted.net]
    exact hserver
  have hnone : listed.client.newBlocks = [] := by
    rw [hlisted.client]
    exact hconnected.newBlocks.trans hblocks
  have hcalls : blockCalls = blockStarts.map (blockRangeCall listed.client.config.me peer
      (tipHash listed.client.chain) out.blockMoments) := by
    rw [hchain, hconfig]
  have hinserted := insert_ranges hserver' (hhonest.of_client hchain hconfig) hnone hroom
    out.blockMoments hcalls hserved
  refine ⟨⟨server, ?_, ?_⟩, ?_⟩
  · exact (congrFun hinserted.1 first.1).trans hserver'
  · rcases hmoved with rfl | rfl <;> rfl
  · have hsame : server.chain = n₁.chain := by rcases hmoved with rfl | rfl <;> rfl
    rw [← hsame, ← hchain]
    exact hinserted.2

/-- A node that starts, with honest hosts that all answer: it catches up with its first peer if and
only if the counts of the last host, rounded up to whole pages, reach those of the first one. -/
theorem startup_catches_up_iff {out : Outside} {s : State} (hpeers : s.client.peers = [])
    (hblocks : s.client.newBlocks = [])
    (hhonest : ∀ x ∈ out.hosts, ∃ n, s.net x.1 = some n ∧ Honest E s.client n)
    (harrive : AllArrive E s
      (out.hosts.map (connectCall s.client.config.me (tipHash s.client.chain))))
    {first last : UserHost × Moment} (hfirst : out.hosts.head? = some first)
    (hlast : out.hosts.getLast? = some last) {n₁ n₂ : Node} (hn₁ : s.net first.1 = some n₁)
    (hn₂ : s.net last.1 = some n₂) :
    ∃ result, (∀ fuel, (greeted s.client.config.me n₂).peers.length < fuel →
        missing s.client n₂ < fuel → init E out fuel s = some result) ∧
      (AllArrive E s result.calls →
        (CatchesUp result (send E s (connectCall s.client.config.me (tipHash s.client.chain)
            first)).client.peersToReceive ↔
          (greeted s.client.config.me n₁).peers.length ≤
              12 * Paging.pages 12 (greeted s.client.config.me n₂).peers.length ∧
            missing s.client n₁ ≤ 4 * Paging.pages 4 (missing s.client n₂))) := by
  have hhonestAt : ∀ x ∈ out.hosts, ∀ n, s.net x.1 = some n → Honest E s.client n := by
    intro x hx n hn
    rcases hhonest x hx with ⟨m, hm, h⟩
    rcases Option.some.inj (hn.symm.trans hm) with rfl
    exact h
  have hhonest₁ := hhonestAt first (List.mem_of_head? hfirst) n₁ hn₁
  have hhonest₂ := hhonestAt last (List.mem_of_getLast? hlast) n₂ hn₂
  rcases init_spec hpeers hblocks hfirst hlast hn₁ hn₂ hhonest₁ hhonest₂
    (fun x hx => (hhonest x hx).imp fun _ h => h.1) harrive with
    ⟨result, hinit, hpeer, hstarts, hend⟩
  refine ⟨result, hinit, fun harriveAll => ?_⟩
  rcases hend harriveAll with ⟨⟨server, hserver, hchain⟩, hload⟩
  -- the count that the first host reported
  have hreported : (send E s (connectCall s.client.config.me (tipHash s.client.chain)
      first)).client.peersToReceive.toNat = (greeted s.client.config.me n₁).peers.length := by
    rcases List.head?_eq_some_iff.1 hfirst with ⟨others, hhosts⟩
    rw [hhosts, List.map_cons] at harrive
    rw [send_connect harrive.running hn₁ (harrive.1 n₁ hn₁), UInt32.toNat_ofNat']
    exact Nat.mod_eq_of_lt (Nat.lt_of_le_of_lt (Nat.le_add_right _ 12) hhonest₁.peers)
  have hcovers : ∀ reported, Covers ((Paging.starts 12 (Paging.pages 12
      (greeted s.client.config.me n₂).peers.length)).map UInt32.ofNat) reported ↔
        reported ≤ 12 * Paging.pages 12 (greeted s.client.config.me n₂).peers.length :=
    fun reported => covers_starts hhonest₂.peers
  have hall : ChainDB.loadAllBlocks result.state.client.chain = ChainDB.loadAllBlocks n₁.chain ↔
      missing s.client n₁ ≤ 4 * Paging.pages 4 (missing s.client n₂) := by
    rw [hload, List.take_eq_self_iff, missing, missing]
    exact Nat.sub_le_iff_le_add'.symm
  constructor
  · rintro ⟨peer, server', hpeer', hserver', hpages, hsame⟩
    rcases Option.some.inj (hpeer.symm.trans hpeer') with rfl
    rcases Option.some.inj (hserver.symm.trans hserver') with rfl
    rw [hreported, hstarts] at hpages
    rw [hchain] at hsame
    exact ⟨(hcovers _).1 hpages, hall.1 hsame⟩
  · rintro ⟨hpages, hrange⟩
    refine ⟨_, server, hpeer, hserver, ?_, ?_⟩
    · rw [hreported, hstarts]
      exact (hcovers _).2 hpages
    · rw [hchain]
      exact hall.2 hrange

/-! ## Two hosts -/

/-- A host with the first block, one with another block over it, and one whose chain is still
empty. -/
def ahead : Node := SmallNet.node
  { host := "10.0.0.1", port := 8001, publicKey := "a", privateKey := "" } [] FirstBlock.table

def further : Node := SmallNet.node
  { host := "10.0.0.4", port := 8004, publicKey := "d", privateKey := "" } [] FirstBlock.longTable

def behind : Node := SmallNet.node
  { host := "10.0.0.2", port := 8002, publicKey := "b", privateKey := "" } []
  KeyedTable.Table.empty

/-- A node without blocks between them. -/
def newcomer : State where
  net := SmallNet.net [ahead, further, behind]
  client := SmallNet.node
    { host := "10.0.0.3", port := 8003, publicKey := "z", privateKey := "" } []
    KeyedTable.Table.empty

def moment : Moment := { sent := FirstBlock.tick "c1", visit := SmallNet.visit }

def trusting (hosts : List Node) : Outside where
  hosts := hosts.map fun n => (n.config.me.toUserHost, moment)
  peerMoments _ := moment
  blockMoments _ := moment

theorem honest_ahead : Honest testEnv newcomer.client ahead where
  valid := FirstBlock.valid_table
  longer := List.nil_prefix
  ids := by constructor <;> decide +kernel
  blocks := by decide
  peers := by decide

theorem honest_further : Honest testEnv newcomer.client further where
  valid := FirstBlock.valid_of_load FirstBlock.loadAllBlocks_longTable
  longer := List.nil_prefix
  ids := by constructor <;> decide +kernel
  blocks := by decide +kernel
  peers := by decide

theorem honest_behind : Honest testEnv newcomer.client behind where
  valid := validateLocalChain_eq_true.2 ValidBlocks.nil
  longer := List.prefix_rfl
  ids := by constructor <;> decide
  blocks := by decide
  peers := by decide

/-- The last host has a block more than the first one, which is asked for it in vain. -/
theorem startup_catches_up_further : ∃ result,
    init testEnv (trusting [ahead, further]) 8 newcomer = some result ∧ CatchesUp result 1 := by
  have hhonest : ∀ x ∈ (trusting [ahead, further]).hosts, ∃ n, newcomer.net x.1 = some n ∧
      Honest testEnv newcomer.client n := by
    intro x hx
    rcases List.mem_pair.1 hx with rfl | rfl
    · exact ⟨ahead, rfl, honest_ahead⟩
    · exact ⟨further, rfl, honest_further⟩
  have hconnects : AllArrive testEnv newcomer ((trusting [ahead, further]).hosts.map
      (connectCall newcomer.client.config.me (tipHash newcomer.client.chain))) := by
    decide +kernel
  have hahead : newcomer.net ahead.config.me.toUserHost = some ahead := rfl
  have hfurther : newcomer.net further.config.me.toUserHost = some further := rfl
  rcases startup_catches_up_iff rfl rfl hhonest hconnects rfl rfl hahead hfurther with
    ⟨result, hinit, hiff⟩
  have hrun := hinit 8 (by decide) (by decide +kernel)
  have harrive : AllArrive testEnv newcomer result.calls := by
    have hall : ∀ r ∈ init testEnv (trusting [ahead, further]) 8 newcomer,
        AllArrive testEnv newcomer r.calls := by
      decide +kernel
    exact hall result hrun
  exact ⟨result, hrun, (hiff harrive).2 (by decide +kernel)⟩

/-- The first host has a block more than the last one, and nobody is asked for it. -/
theorem newcomer_without_block :
    (∀ n ∈ [ahead, behind], Honest testEnv newcomer.client n) ∧
      ∃ result, init testEnv (trusting [ahead, behind]) 8 newcomer = some result ∧
        AllArrive testEnv newcomer result.calls ∧
        ∀ reported, ¬ CatchesUp result reported := by
  have hreachable : ∀ x ∈ (trusting [ahead, behind]).hosts, ∃ n, newcomer.net x.1 = some n := by
    intro x hx
    rcases List.mem_cons.1 hx with rfl | hlast
    · exact ⟨ahead, rfl⟩
    · rcases List.mem_singleton.1 hlast with rfl
      exact ⟨behind, rfl⟩
  have hconnects : AllArrive testEnv newcomer ((trusting [ahead, behind]).hosts.map
      (connectCall newcomer.client.config.me (tipHash newcomer.client.chain))) := by
    decide +kernel
  have hahead : newcomer.net ahead.config.me.toUserHost = some ahead := rfl
  have hbehind : newcomer.net behind.config.me.toUserHost = some behind := rfl
  -- the first host is asked, with the counts of the last one
  rcases init_spec rfl rfl rfl rfl hahead hbehind honest_ahead honest_behind hreachable hconnects
    with ⟨result, hinit, hpeer, _, hend⟩
  have hrun := hinit 8 (by decide) (by decide)
  have harrive : AllArrive testEnv newcomer result.calls := by
    have hall : ∀ r ∈ init testEnv (trusting [ahead, behind]) 8 newcomer,
        AllArrive testEnv newcomer r.calls := by
      decide +kernel
    exact hall result hrun
  refine ⟨?_, result, hrun, harrive, ?_⟩
  · intro n hn
    rcases List.mem_cons.1 hn with rfl | hlast
    · exact honest_ahead
    · exact List.mem_singleton.1 hlast ▸ honest_behind
  · rintro reported ⟨peer, server, hpeer', hserver', _, hsame⟩
    rcases hend harrive with ⟨⟨server', hserver, hchain⟩, hload⟩
    rcases Option.some.inj (hpeer.symm.trans hpeer') with rfl
    rcases Option.some.inj (hserver.symm.trans hserver') with rfl
    rw [hload, hchain] at hsame
    -- one chain is empty and the other is not
    have hlength := congrArg List.length hsame
    revert hlength
    decide +kernel

end Startup
end Network
end DChat
