import DChat.Startup
import DChat.Agreement
import DChat.PeerPages
import Mathlib.Data.List.Perm.Subperm

/-!
# Membership — nodes that start, leave and vanish while others send

A party is a node in one of two states: it runs, or it has stopped and left its tables behind.  It
starts with `init`, which ends with a CONNECT to every peer it has heard of; it leaves with a
DISCONNECT to every peer; and it may vanish without a word, so that the others go on listing it.

Whoever is listed and does not run counts as having taken a block, and when it starts again it
gets what it missed.  So the nodes that run hold one chain, which grows by the blocks of the sends
and by nothing else, and the tables of the others are a part of it.  What a start needs for that is
a trusted host that runs, and pages enough for the peers of the one it asks; when nobody runs, the
first to start is one that has all the blocks.
-/

namespace DChat
namespace Network
namespace Membership

open Utils Crypto Peer Messaging Blockchain BlockchainService Chat KeyedTable PartyMap TCPClient
open Startup (State Moment Call AllArrive Covers)

/-! ## Starting and leaving -/

/-- The nodes that run, and the parties as they stopped. -/
structure World where
  net : Nodes
  stopped : UserHost → Node

/-- A new process: the tables are there, and nothing is in memory. -/
def reboot (n : Node) : Node :=
  { n with peers := [], newBlocks := [], peersToReceive := 0, missingBlocksCount := 0 }

/-- A CONNECT of `connectToAllPeers`. -/
def connectPeerCall (me : UserPeer) (moments : UserPeer → Moment) (toPeer : UserPeer) :
    Call where
  host := toPeer.toUserHost
  visit := (moments toPeer).visit
  jMessage := (ConnectionMessage.create (moments toPeer).sent me toPeer "0").serialize

/-- A DISCONNECT of `TCPClient::disconnect`. -/
def disconnectCall (me : UserPeer) (moments : UserPeer → Moment) (peer : UserPeer) : Call where
  host := peer.toUserHost
  visit := (moments peer).visit
  jMessage := (Message.create (moments peer).sent .disconnect me peer).basicSerialization

/-- The messages of `TCPClient::connectToAllPeers`. -/
def connectCalls (moments : UserPeer → Moment) (client : Node) : List Call :=
  client.peers.map (connectPeerCall client.config.me moments)

/-- The messages of `TCPClient::disconnect`. -/
def disconnectCalls (moments : UserPeer → Moment) (client : Node) : List Call :=
  client.peers.map (disconnectCall client.config.me moments)

variable (E : Env)

/-- `TCPClient::connectToAllPeers`. -/
def connectToAllPeers (moments : UserPeer → Moment) (s : State) : State :=
  Startup.sendAll E s (connectCalls moments s.client)

/-- `TCPClient::disconnect`. -/
def disconnect (moments : UserPeer → Moment) (s : State) : State :=
  Startup.sendAll E s (disconnectCalls moments s.client)

/-- The party as it starts: nobody can reach it before its server runs. -/
def World.starting (w : World) (cfg : Config) : State where
  net := w.net
  client := reboot (w.stopped cfg.me.toUserHost)

/-- The client is a node of the network from now on. -/
def World.join (w : World) (s : State) : World where
  net := Function.update s.net s.client.config.me.toUserHost (some s.client)
  stopped := w.stopped

/-- The node at the address has stopped, as it was last. -/
def World.stop (w : World) (net : Nodes) (host : UserHost) (n : Node) : World where
  net := net
  stopped := Function.update w.stopped host n

/-- What may happen among the parties, with the blocks that are made. -/
inductive Step (parties : List Config) : World → List Block → World → Prop
  /-- `init` while nobody runs, of a party that has all blocks the others have. -/
  | first {w : World} {cfg : Config} {out : Startup.Outside} {fuel : Nat} {result : Startup.Result}
      (moments : UserPeer → Moment) : cfg ∈ parties → (∀ host, w.net host = none) →
      (∀ c ∈ parties, ChainDB.loadAllBlocks (w.stopped c.me.toUserHost).chain <+:
        ChainDB.loadAllBlocks (w.stopped cfg.me.toUserHost).chain) →
      Startup.init E out fuel (w.starting cfg) = some result →
      Step parties w [] (w.join (connectToAllPeers E moments result.state))
  /-- `init`, with a trusted host that runs.  All texts arrive, and the pages cover the peers of
  the host that is asked. -/
  | start {w : World} {cfg : Config} {out : Startup.Outside} {fuel : Nat} {result : Startup.Result}
      {moments : UserPeer → Moment} : cfg ∈ parties → w.net cfg.me.toUserHost = none →
      (∃ x ∈ out.hosts, (w.net x.1).isSome) →
      Startup.init E out fuel (w.starting cfg) = some result →
      AllArrive E (w.starting cfg) result.calls →
      (∀ peer ∈ result.peer, ∀ n ∈ result.state.net peer.toUserHost,
        Covers result.peerStarts n.peers.length) →
      AllArrive E result.state (connectCalls moments result.state.client) →
      Step parties w [] (w.join (connectToAllPeers E moments result.state))
  /-- `shutdown`: the server stops first. -/
  | leave {w : World} {host : UserHost} {n : Node} (moments : UserPeer → Moment) :
      w.net host = some n →
      Step parties w [] (w.stop
        (disconnect E moments { net := Function.update w.net host none, client := n }).net host
        (disconnect E moments { net := Function.update w.net host none, client := n }).client)
  | vanish {w : World} {host : UserHost} {n : Node} : w.net host = some n →
      Step parties w [] (w.stop (Function.update w.net host none) host n)
  /-- A text from one party to another, whether they run or not. -/
  | send {w : World} {s : Send} : s.sender ∈ parties → s.recipient ∈ parties →
      s.InTime parties →
      Step parties w (s.run E w.net).2.block?.toList { w with net := (s.run E w.net).1 }

/-- Any number of steps, with all blocks that are made. -/
inductive Run (parties : List Config) : World → List Block → World → Prop
  | refl (w : World) : Run parties w [] w
  | tail {w w' w'' : World} {made more : List Block} : Run parties w made w' →
      Step E parties w' more w'' → Run parties w (made ++ more) w''

/-! ## The invariant -/

/-- No row was ever lost: the ids are those of a table that only had insertions. -/
structure Unbroken (t : BlockTable) : Prop where
  ids : t.rows.map Prod.fst = List.range' 1 t.rows.length
  seq : t.seq = t.rows.length

/-- A node that runs: it knows every other one that runs, lists parties only, and not itself, and
holds the chain. -/
structure Online (parties : List Config) (chain : List Block) (net : Nodes) (host : UserHost)
    (n : Node) : Prop where
  party : n.config ∈ parties
  address : n.config.me.toUserHost = host
  nodup : n.peers.Nodup
  genuine : ∀ p ∈ n.peers, ∃ cfg ∈ parties, cfg ≠ n.config ∧ cfg.me = p
  knows : ∀ {host' n'}, net host' = some n' → host' ≠ host → n'.config.me ∈ n.peers
  load : ChainDB.loadAllBlocks n.chain = chain
  ids : Unbroken n.chain

/-- A party that has stopped: its table is a part of the chain. -/
structure Offline (cfg : Config) (chain : List Block) (n : Node) : Prop where
  config : n.config = cfg
  load : ChainDB.loadAllBlocks n.chain <+: chain
  ids : Unbroken n.chain

/-- The nodes that run hold the chain, and it is not lost when none of them does. -/
structure Inv (parties : List Config) (chain : List Block) (w : World) : Prop where
  valid : ValidBlocks E chain
  online : ∀ {host n}, w.net host = some n → Online parties chain w.net host n
  offline : ∀ cfg ∈ parties, w.net cfg.me.toUserHost = none →
    Offline cfg chain (w.stopped cfg.me.toUserHost)
  kept : ∃ cfg ∈ parties, (w.net cfg.me.toUserHost).isSome ∨
    ChainDB.loadAllBlocks (w.stopped cfg.me.toUserHost).chain = chain

variable {E}

/-! ## Rows -/

theorem Unbroken.insertBlock {t : BlockTable} (h : Unbroken t) (b : Block) :
    Unbroken (ChainDB.insertBlock t b).1 := by
  rw [ChainDB.insertBlock]
  split
  · exact h
  · by_cases hfresh : t.Fresh (BlockRow.ofBlock b)
    · have hrows := (Table.insert_of_fresh hfresh).1
      have hseq : (t.insert (BlockRow.ofBlock b)).1.seq = t.seq + 1 := by
        rw [Table.insert, dif_neg fun hmem => Table.mem_keys_iff.1 hmem hfresh]
      constructor
      · rw [ChainDB.insertRow, hrows, List.map_append, h.ids, List.length_append,
          List.map_singleton, h.seq, List.length_singleton, List.range'_concat]
        simp [Nat.add_comm]
      · rw [ChainDB.insertRow, hrows, hseq, h.seq, List.length_append, List.length_singleton]
    · rw [ChainDB.insertRow, Table.insert_of_not_fresh hfresh]
      exact h

theorem Unbroken.insertNewBlocks {t : BlockTable} (h : Unbroken t) (blocks : List Block) :
    Unbroken (insertNewBlocks t blocks).1 := by
  induction blocks generalizing t with
  | nil => exact h
  | cons b blocks ih => exact ih (h.insertBlock b)

theorem Unbroken.consecutiveIds {t : BlockTable} (h : Unbroken t)
    (hlen : t.rows.length + 4 < 2 ^ 32) : ConsecutiveIds t 1 :=
  ⟨h.ids, by omega⟩

/-! ## Calls of a node that starts -/

/-- The node has come to know `me`, or is as it was. -/
def Met (me : UserPeer) (n n' : Node) : Prop := n' = n ∨ n' = Startup.greeted me n

theorem Met.greet {me : UserPeer} {n n' : Node} (h : Met me n n') :
    Startup.greeted me n' = Startup.greeted me n := by
  rcases h with rfl | rfl
  · rfl
  · exact Startup.greeted_greeted me n

theorem Met.config {me : UserPeer} {n n' : Node} (h : Met me n n') : n'.config = n.config := by
  rcases h with rfl | rfl <;> rfl

theorem Met.chain {me : UserPeer} {n n' : Node} (h : Met me n n') : n'.chain = n.chain := by
  rcases h with rfl | rfl <;> rfl

theorem Met.mem_peers {me p : UserPeer} {n n' : Node} (h : Met me n n') (hp : p ≠ me) :
    p ∈ n'.peers ↔ p ∈ n.peers := by
  rcases h with rfl | rfl
  · rfl
  · rw [Startup.greeted, PeerService.mem_addPeer, or_iff_left hp]

/-- The nodes that a starting party may meet: other parties, at their addresses. -/
structure Hosts (parties : List Config) (cfg : Config) (net : Nodes) : Prop where
  party : ∀ {host n}, net host = some n → n.config ∈ parties ∧ n.config ≠ cfg
  address : ∀ {host n}, net host = some n → n.config.me.toUserHost = host
  genuine : ∀ {host n}, net host = some n → ∀ p ∈ n.peers, ∃ c ∈ parties, c.me = p

/-- What holds of a party while it starts, whatever it has sent so far: it lists parties only, its
chain is what it was, and others may have come to know it. -/
structure Starting (parties : List Config) (cfg : Config) (net : Nodes) (t : BlockTable)
    (s : State) : Prop where
  config : s.client.config = cfg
  chain : s.client.chain = t
  nodup : s.client.peers.Nodup
  genuine : ∀ p ∈ s.client.peers, p ≠ cfg.me ∧ ∃ c ∈ parties, c.me = p
  net : Moved (fun _ => Met cfg.me) net s.net

/-- Everybody who was in the list still is. -/
def Remembers (s s' : State) : Prop := s.client.peers ⊆ s'.client.peers

/-- Whoever runs at the address lists the party. -/
def KnownAt (me : UserPeer) (s : State) (host : UserHost) : Prop := ∀ n ∈ s.net host, me ∈ n.peers

/-- What CONNECTs to these addresses do: whoever runs there and the party know each other. -/
structure Introduced (me : UserPeer) (net : Nodes) (hosts : List UserHost) (s s' : State) :
    Prop where
  remembers : Remembers s s'
  listed : ∀ host ∈ hosts, ∀ n ∈ net host, n.config.me ∈ s'.client.peers
  known : ∀ host, host ∈ hosts ∨ KnownAt me s host → KnownAt me s' host

theorem Introduced.trans {me : UserPeer} {net : Nodes} {hosts more : List UserHost}
    {s s' s'' : State} (h : Introduced me net hosts s s') (h' : Introduced me net more s' s'') :
    Introduced me net (hosts ++ more) s s'' where
  remembers := fun _ hp => h'.remembers (h.remembers hp)
  listed host hhost n hn := by
    rcases List.mem_append.1 hhost with hfirst | hmore
    · exact h'.remembers (h.listed host hfirst n hn)
    · exact h'.listed host hmore n hn
  known host hhost := by
    rcases hhost with hhost | hknown
    · rcases List.mem_append.1 hhost with hfirst | hmore
      · exact h'.known host (Or.inr (h.known host (Or.inl hfirst)))
      · exact h'.known host (Or.inl hmore)
    · exact h'.known host (Or.inr (h.known host (Or.inr hknown)))

/-- A CONNECT of the party. -/
def IsConnect (me : UserPeer) (c : Call) : Prop :=
  ∃ (toPeer : UserPeer) (moment : Moment) (lastHash : String),
    c = { host := toPeer.toUserHost, visit := moment.visit
          jMessage := (ConnectionMessage.create moment.sent me toPeer lastHash).serialize }

section Calls

variable {parties : List Config} {cfg : Config} {net : Nodes} {t : BlockTable} {s : State}

theorem me_injective {c d : Config} (hkeys : (parties.map Config.me).Nodup) (hc : c ∈ parties)
    (hd : d ∈ parties) (h : c.me = d.me) : c = d := List.inj_on_of_nodup_map hkeys hc hd h

/-- Where nobody listens nothing changes, but the message may be too big. -/
theorem send_of_unreachable {c : Call} (h : s.net c.host = none) :
    ∃ thrown, Startup.send E s c = { s with thrown } := by
  obtain hsend | ⟨server, -, -, hserver, -⟩ := Startup.send_cases (E := E) s c
  · exact hsend
  · cases h.symm.trans hserver

/-- A CONNECT to a node that runs: each of the two lists the other. -/
theorem Starting.send_connect (hhosts : Hosts parties cfg net) (h : Starting parties cfg net t s)
    (hrunning : s.thrown = none) {toPeer : UserPeer} (moment : Moment) (lastHash : String)
    {n n' : Node}
    (hn : net toPeer.toUserHost = some n) (hn' : s.net toPeer.toUserHost = some n')
    (hmet : Met cfg.me n n') (harrives : Arrives E n' moment.visit
      (ConnectionMessage.create moment.sent cfg.me toPeer lastHash).serialize) :
    Startup.send E s { host := toPeer.toUserHost, visit := moment.visit
                       jMessage := (ConnectionMessage.create moment.sent cfg.me
                         toPeer lastHash).serialize } =
      { net := Function.update s.net toPeer.toUserHost (some (Startup.greeted cfg.me n))
        client := { s.client with
          peers := PeerService.addPeer s.client.peers n.config.me
          peersToReceive := UInt32.ofNat (Startup.greeted cfg.me n).peers.length
          missingBlocksCount := ChainDB.countBlocksAfterHash n.chain lastHash } } := by
  have hpeer : ({ toPeer with publicKey := n'.config.publicKey } : UserPeer) = n.config.me := by
    rw [hmet.config, ← hhosts.address hn]
    rfl
  rw [← h.config] at harrives
  rw [← hmet.greet, ← hmet.chain, ← hpeer, ← h.config]
  refine Eq.trans (Startup.send_of_ok hrunning hn' (sendMessage_connect harrives)) ?_
  rw [hrunning]
  rfl

/-- A greeted node knows the party, and nobody forgets it. -/
theorem KnownAt.greeted {me : UserPeer} {s' : State} {place host : UserHost} {n : Node}
    (hnet : s'.net = Function.update s.net place (some (Startup.greeted me n)))
    (hknown : host = place ∨ KnownAt me s host) : KnownAt me s' host := by
  intro m hm
  rw [hnet] at hm
  by_cases hhost : host = place
  · rw [hhost, Function.update_self] at hm
    cases hm
    exact PeerService.mem_addPeer.2 (Or.inr rfl)
  · rw [Function.update_of_ne hhost] at hm
    exact hknown.resolve_left hhost m hm

/-- A CONNECT keeps it. -/
theorem Starting.connect (hhosts : Hosts parties cfg net)
    (hkeys : (parties.map Config.me).Nodup) (hcfg : cfg ∈ parties)
    (h : Starting parties cfg net t s) (hrunning : s.thrown = none) {c : Call}
    (hcall : IsConnect cfg.me c) (harrives : ∀ n ∈ s.net c.host, Arrives E n c.visit c.jMessage) :
    Starting parties cfg net t (Startup.send E s c) ∧
      Introduced cfg.me net [c.host] s (Startup.send E s c) := by
  obtain ⟨toPeer, moment, lastHash, rfl⟩ := hcall
  cases hn' : s.net toPeer.toUserHost with
  | none =>
      -- nobody listens there
      obtain ⟨thrown, hsend⟩ := send_of_unreachable (E := E) (c := ⟨toPeer.toUserHost,
        moment.visit, (ConnectionMessage.create moment.sent cfg.me toPeer lastHash).serialize⟩) hn'
      rw [hsend]
      refine ⟨⟨h.config, h.chain, h.nodup, h.genuine, h.net⟩, fun _ hp => hp,
        fun host hhost n hn => ?_, fun host hhost => ?_⟩
      · rw [List.mem_singleton.1 hhost, h.net.eq_none_iff.1 hn'] at hn
        cases hn
      · rcases hhost with hhost | hknown
        · rw [List.mem_singleton.1 hhost, KnownAt, hn']
          exact fun n hn => absurd hn (by simp)
        · exact hknown
  | some n' =>
      obtain ⟨n, hn, hmet⟩ := h.net.exists_of_some hn'
      rw [h.send_connect hhosts hrunning moment lastHash hn hn' hmet (harrives n' hn')]
      -- the host is a party and not the client, so it is a genuine peer
      obtain ⟨hparty, hne⟩ := hhosts.party hn
      refine ⟨⟨h.config, h.chain, PeerService.nodup_addPeer h.nodup _, ?_, ?_⟩, ?_, ?_, ?_⟩
      · intro p hp
        rcases PeerService.mem_addPeer.1 hp with hold | rfl
        · exact h.genuine p hold
        · exact ⟨fun heq => hne (me_injective hkeys hparty hcfg heq), n.config, hparty, rfl⟩
      · intro k
        dsimp only
        by_cases hk : k = toPeer.toUserHost
        · rw [hk, Function.update_self, hn]
          exact .some (Or.inr rfl)
        · rw [Function.update_of_ne hk]
          exact h.net k
      · exact fun p hp => PeerService.mem_addPeer.2 (Or.inl hp)
      · intro host hhost m hm
        rw [List.mem_singleton.1 hhost] at hm
        cases hn.symm.trans hm
        exact PeerService.mem_addPeer.2 (Or.inr rfl)
      · exact fun host hhost => KnownAt.greeted rfl (hhost.imp_left List.mem_singleton.1)

theorem Starting.connects (hhosts : Hosts parties cfg net)
    (hkeys : (parties.map Config.me).Nodup) (hcfg : cfg ∈ parties) {calls : List Call}
    (hcalls : ∀ c ∈ calls, IsConnect cfg.me c) (h : Starting parties cfg net t s)
    (harrive : AllArrive E s calls) :
    Starting parties cfg net t (Startup.sendAll E s calls) ∧
      Introduced cfg.me net (calls.map Call.host) s (Startup.sendAll E s calls) := by
  induction calls generalizing s with
  | nil => exact ⟨h, fun _ hp => hp, by simp, fun host hhost => hhost.resolve_left (by simp)⟩
  | cons c calls ih =>
      rw [List.forall_mem_cons] at hcalls
      obtain ⟨hone, hintroduced⟩ := h.connect hhosts hkeys hcfg harrive.running hcalls.1 harrive.1
      obtain ⟨hrest, hothers⟩ := ih hcalls.2 hone harrive.2
      exact ⟨hrest, hintroduced.trans hothers⟩

/-- A peer page keeps it, and brings the peers that stand on the page. -/
theorem Starting.peerList (hhosts : Hosts parties cfg net) (h : Starting parties cfg net t s)
    (hrunning : s.thrown = none) {recipient : UserPeer} {moments : UInt32 → Moment}
    {start : UInt32} {c : Call} (hcall : c = Startup.peerListCall cfg.me recipient moments start)
    (harrives : ∀ n ∈ s.net c.host, Arrives E n c.visit c.jMessage) :
    Starting parties cfg net t (Startup.send E s c) ∧ Remembers s (Startup.send E s c) ∧
      (Startup.send E s c).net = s.net ∧
      ∀ n, s.net c.host = some n → ∀ p ∈ (n.peers.take (start + peersBatchSize).toNat).drop
        start.toNat, p ≠ cfg.me → p ∈ (Startup.send E s c).client.peers := by
  subst hcall
  cases hn' : s.net recipient.toUserHost with
  | none =>
      obtain ⟨thrown, hsend⟩ := send_of_unreachable (E := E)
        (c := Startup.peerListCall cfg.me recipient moments start) hn'
      rw [hsend]
      refine ⟨⟨h.config, h.chain, h.nodup, h.genuine, h.net⟩, fun _ hp => hp, rfl, fun n hn => ?_⟩
      rw [Startup.peerListCall, hn'] at hn
      cases hn
  | some n' =>
      obtain ⟨n, hn, hmet⟩ := h.net.exists_of_some hn'
      have harrives' : Arrives E n' (moments start).visit (PeerListMessage.create
          (moments start).sent s.client.config.me recipient start peersBatchSize).serialize :=
        h.config ▸ harrives n' hn'
      -- a request for peers leaves the server as it was
      have hsend : Startup.send E s (Startup.peerListCall cfg.me recipient moments start) =
          { s with
            client := { s.client with
              peers := (((n'.peers.take (start + peersBatchSize).toNat).drop start.toNat).filter
                (· ≠ cfg.me)).foldl PeerService.addPeer s.client.peers } } := by
        have hsent := Startup.send_of_ok
          (c := Startup.peerListCall s.client.config.me recipient moments start) hrunning hn'
          (sendMessage_peerList harrives')
        rw [← h.config, hsent, Startup.peerListCall, ← hn', Function.update_eq_self]
      rw [hsend]
      refine
        ⟨⟨h.config, h.chain, PeerService.nodup_foldl_addPeer h.nodup _, ?_, h.net⟩, ?_, rfl, ?_⟩
      · intro p hp
        rcases PeerService.mem_foldl_addPeer.1 hp with hold | hnew
        · exact h.genuine p hold
        · obtain ⟨hpage, hne⟩ := List.mem_filter.1 hnew
          have hother : p ≠ cfg.me := of_decide_eq_true hne
          have hlisted : p ∈ n'.peers := List.mem_of_mem_take (List.mem_of_mem_drop hpage)
          exact ⟨hother, hhosts.genuine hn p ((hmet.mem_peers hother).1 hlisted)⟩
      · exact fun p hp => PeerService.mem_foldl_addPeer.2 (Or.inl hp)
      · intro m hm p hp hne
        cases hn'.symm.trans hm
        exact PeerService.mem_foldl_addPeer.2 (Or.inr (List.mem_filter.2 ⟨hp, decide_eq_true hne⟩))

/-- A block page keeps it, and touches no list. -/
theorem Starting.blockRange (h : Starting parties cfg net t s) (hrunning : s.thrown = none)
    {recipient : UserPeer}
    {lastHash : String} {moments : UInt32 → Moment} {start : UInt32} {c : Call}
    (hcall : c = Startup.blockRangeCall cfg.me recipient lastHash moments start)
    (harrives : ∀ n ∈ s.net c.host, Arrives E n c.visit c.jMessage) :
    Starting parties cfg net t (Startup.send E s c) ∧ Remembers s (Startup.send E s c) ∧
      (Startup.send E s c).net = s.net := by
  subst hcall
  cases hn' : s.net recipient.toUserHost with
  | none =>
      obtain ⟨thrown, hsend⟩ := send_of_unreachable (E := E)
        (c := Startup.blockRangeCall cfg.me recipient lastHash moments start) hn'
      rw [hsend]
      exact ⟨⟨h.config, h.chain, h.nodup, h.genuine, h.net⟩, fun _ hp => hp, rfl⟩
  | some n' =>
      have harrives' : Arrives E n' (moments start).visit (BlockRangeMessage.create
          (moments start).sent s.client.config.me recipient start blocksBatchSize
            lastHash).serialize := h.config ▸ harrives n' hn'
      have hsend : Startup.send E s
          (Startup.blockRangeCall cfg.me recipient lastHash moments start) =
          { s with
            client := { s.client with
              newBlocks := s.client.newBlocks ++
                ChainDB.getBlocksByIndexRange n'.chain start blocksBatchSize lastHash } } := by
        have hsent := Startup.send_of_ok
          (c := Startup.blockRangeCall s.client.config.me recipient lastHash moments start) hrunning
          hn' (sendMessage_blockRange harrives')
        rw [← h.config, hsent, Startup.blockRangeCall, ← hn', Function.update_eq_self]
      rw [hsend]
      exact ⟨⟨h.config, h.chain, h.nodup, h.genuine, h.net⟩, fun _ hp => hp, rfl⟩

theorem Starting.peerLists (hhosts : Hosts parties cfg net) {recipient : UserPeer}
    {moments : UInt32 → Moment} {starts : List UInt32} (h : Starting parties cfg net t s)
    (harrive : AllArrive E s (starts.map (Startup.peerListCall cfg.me recipient moments))) :
    Starting parties cfg net t (Startup.sendAll E s
        (starts.map (Startup.peerListCall cfg.me recipient moments))) ∧
      Remembers s (Startup.sendAll E s
        (starts.map (Startup.peerListCall cfg.me recipient moments))) ∧
      (Startup.sendAll E s
        (starts.map (Startup.peerListCall cfg.me recipient moments))).net = s.net ∧
      ∀ n, s.net recipient.toUserHost = some n → ∀ start ∈ starts,
        ∀ p ∈ (n.peers.take (start + peersBatchSize).toNat).drop start.toNat, p ≠ cfg.me →
          p ∈ (Startup.sendAll E s
            (starts.map (Startup.peerListCall cfg.me recipient moments))).client.peers := by
  induction starts generalizing s with
  | nil => exact ⟨h, fun _ hp => hp, rfl, by simp⟩
  | cons start starts ih =>
      obtain ⟨hone, hremembers, hnet, hpage⟩ := h.peerList hhosts harrive.running rfl harrive.1
      obtain ⟨hrest, hothers, hquiet, hpages⟩ := ih hone harrive.2
      refine ⟨hrest, fun _ hp => hothers (hremembers hp), hquiet.trans hnet,
        fun n hn start' hstart p hp hne => ?_⟩
      rcases List.mem_cons.1 hstart with rfl | hlater
      · exact hothers (hpage n hn p hp hne)
      · exact hpages n (by rw [hnet]; exact hn) start' hlater p hp hne

theorem Starting.blockRanges {recipient : UserPeer} {lastHash : String}
    {moments : UInt32 → Moment} {starts : List UInt32} (h : Starting parties cfg net t s)
    (harrive : AllArrive E s
      (starts.map (Startup.blockRangeCall cfg.me recipient lastHash moments))) :
    Starting parties cfg net t (Startup.sendAll E s
        (starts.map (Startup.blockRangeCall cfg.me recipient lastHash moments))) ∧
      Remembers s (Startup.sendAll E s
        (starts.map (Startup.blockRangeCall cfg.me recipient lastHash moments))) ∧
      (Startup.sendAll E s
        (starts.map (Startup.blockRangeCall cfg.me recipient lastHash moments))).net = s.net := by
  induction starts generalizing s with
  | nil => exact ⟨h, fun _ hp => hp, rfl⟩
  | cons start starts ih =>
      obtain ⟨hone, hremembers, hnet⟩ := h.blockRange harrive.running rfl harrive.1
      obtain ⟨hrest, hothers, hquiet⟩ := ih hone harrive.2
      exact ⟨hrest, fun _ hp => hothers (hremembers hp), hquiet.trans hnet⟩

end Calls

/-! ## Trusted hosts that do not run -/

section Init

variable {s : State}

theorem isSome_send (s : State) (c : Call) (host : UserHost) :
    ((Startup.send E s c).net host).isSome = (s.net host).isSome := by
  obtain ⟨thrown, hsend⟩ | ⟨server, server', client', hn, -, hsend⟩ :=
    Startup.send_cases (E := E) s c
  · rw [hsend]
  · rw [hsend]
    dsimp only
    by_cases hk : host = c.host
    · rw [hk, Function.update_self, hn]
      rfl
    · rw [Function.update_of_ne hk]

/-- The hosts that run. -/
def reachable (s : State) (hosts : List (UserHost × Moment)) : List (UserHost × Moment) :=
  hosts.filter fun x => (s.net x.1).isSome

/-- The CONNECTs to the others do nothing. -/
theorem sendAll_reachable (me : UserPeer) (lastHash : String) (hosts : List (UserHost × Moment))
    {s : State} (harrive : AllArrive E s (hosts.map (Startup.connectCall me lastHash))) :
    Startup.sendAll E s (hosts.map (Startup.connectCall me lastHash)) =
        Startup.sendAll E s ((reachable s hosts).map (Startup.connectCall me lastHash)) ∧
      AllArrive E s ((reachable s hosts).map (Startup.connectCall me lastHash)) := by
  induction hosts generalizing s with
  | nil => exact ⟨rfl, harrive⟩
  | cons x hosts ih =>
      obtain ⟨hfirst, hrest⟩ := harrive
      obtain ⟨hsame, hothers⟩ := ih hrest
      have hreachable : reachable (Startup.send E s (Startup.connectCall me lastHash x)) hosts =
          reachable s hosts := by
        simp only [reachable, isSome_send]
      rw [hreachable] at hsame hothers
      by_cases hx : (s.net x.1).isSome = true
      · rw [reachable, List.filter_cons_of_pos (by simpa using hx)]
        exact ⟨hsame, hfirst, hothers⟩
      · have hnone : s.net (Startup.connectCall me lastHash x).host = none :=
          Option.not_isSome_iff_eq_none.1 hx
        have hquiet : Startup.send E s (Startup.connectCall me lastHash x) = s := by
          obtain ⟨thrown, hsend⟩ := send_of_unreachable (E := E) hnone
          have hrunning := Startup.running_of_send hrest.running
          have hthrown := hrest.running
          rw [hsend] at hthrown ⊢
          rw [show thrown = s.thrown from Eq.trans hthrown hrunning.symm]
        rw [hquiet] at hsame hothers
        rw [reachable, List.filter_cons_of_neg (by simpa using hx), List.map_cons]
        refine ⟨?_, hothers⟩
        rw [← reachable, ← hsame, Startup.sendAll, List.foldl_cons, hquiet]
        rfl

/-- How `init` ends when the first CONNECTs have brought a peer. -/
theorem init_eq_some {out : Startup.Outside} {fuel : Nat} {result : Startup.Result}
    (hinit : Startup.init E out fuel s = some result) {peer : UserPeer} {others : List UserPeer}
    (hpeers : (Startup.sendAll E s (out.hosts.map (Startup.connectCall s.client.config.me
      (tipHash s.client.chain)))).client.peers = peer :: others) :
    ∃ blockStarts : List UInt32, result.peer = some peer ∧
      result.calls = out.hosts.map (Startup.connectCall s.client.config.me
          (tipHash s.client.chain)) ++
        result.peerStarts.map (Startup.peerListCall s.client.config.me peer out.peerMoments) ++
        blockStarts.map (Startup.blockRangeCall s.client.config.me peer
          (tipHash s.client.chain) out.blockMoments) ∧
      result.state = Startup.insertReceived E (Startup.sendAll E s result.calls) := by
  simp only [Startup.init, hpeers, Option.bind_eq_bind, Option.bind_eq_some_iff] at hinit
  obtain ⟨peerStarts, -, blockStarts, -, hresult⟩ := hinit
  cases hresult
  refine ⟨blockStarts, rfl, rfl, ?_⟩
  rw [Startup.sendAll_append, Startup.sendAll_append]

theorem init_calls {out : Startup.Outside} {fuel : Nat} {result : Startup.Result}
    (hinit : Startup.init E out fuel s = some result) :
    ∃ rest, result.calls = out.hosts.map (Startup.connectCall s.client.config.me
      (tipHash s.client.chain)) ++ rest := by
  cases hpeers : (Startup.sendAll E s (out.hosts.map (Startup.connectCall s.client.config.me
      (tipHash s.client.chain)))).client.peers with
  | nil =>
      simp only [Startup.init, hpeers] at hinit
      cases hinit
      exact ⟨[], (List.append_nil _).symm⟩
  | cons peer others =>
      obtain ⟨blockStarts, -, hcalls, -⟩ := init_eq_some hinit hpeers
      exact ⟨_, by rw [hcalls, List.append_assoc]⟩

/-- Without a peer there is nobody to ask. -/
theorem init_peer {out : Startup.Outside} {fuel : Nat} {result : Startup.Result} {peer : UserPeer}
    (hinit : Startup.init E out fuel s = some result) (hpeer : result.peer = some peer) :
    ∃ others, (Startup.sendAll E s (out.hosts.map (Startup.connectCall s.client.config.me
      (tipHash s.client.chain)))).client.peers = peer :: others := by
  cases hpeers : (Startup.sendAll E s (out.hosts.map (Startup.connectCall s.client.config.me
      (tipHash s.client.chain)))).client.peers with
  | nil =>
      simp only [Startup.init, hpeers] at hinit
      cases hinit
      cases hpeer
  | cons p others =>
      obtain ⟨-, hp, -⟩ := init_eq_some hinit hpeers
      exact ⟨others, by rw [Option.some.inj (hp.symm.trans hpeer)]⟩

/-- `init` does the same when only the hosts that run are trusted. -/
theorem init_reachable {out : Startup.Outside} {fuel : Nat} {result : Startup.Result}
    (hinit : Startup.init E out fuel s = some result) (harrive : AllArrive E s result.calls) :
    ∃ calls, Startup.init E { out with hosts := reachable s out.hosts } fuel s =
        some { result with calls } ∧ AllArrive E s calls := by
  obtain ⟨rest, hcalls⟩ := init_calls hinit
  rw [hcalls, Startup.allArrive_append] at harrive
  obtain ⟨hsame, hgreet⟩ := sendAll_reachable s.client.config.me (tipHash s.client.chain) out.hosts
    harrive.1
  cases hpeers : (Startup.sendAll E s (out.hosts.map (Startup.connectCall s.client.config.me
      (tipHash s.client.chain)))).client.peers with
  | nil =>
      simp only [Startup.init, hpeers, ← hsame] at hinit ⊢
      cases hinit
      exact ⟨_, rfl, hgreet⟩
  | cons peer others =>
      simp only [Startup.init, hpeers, ← hsame, Option.bind_eq_bind, Option.bind_eq_some_iff]
        at hinit ⊢
      obtain ⟨peerStarts, hpeerStarts, blockStarts, hblockStarts, hresult⟩ := hinit
      cases hresult
      refine ⟨_, ⟨peerStarts, hpeerStarts, blockStarts, hblockStarts, rfl⟩, ?_⟩
      rw [List.append_assoc] at hcalls ⊢
      rw [Startup.allArrive_append, ← hsame, List.append_cancel_left hcalls]
      exact ⟨hgreet, harrive.2⟩

/-- More fuel changes nothing. -/
theorem requestStarts_mono {batch count start : UInt32} {fuel more : Nat} {starts : List UInt32}
    (h : requestStarts batch count fuel start = some starts) :
    requestStarts batch count (fuel + more) start = some starts := by
  induction fuel generalizing start starts with
  | zero => cases h
  | succ fuel ih =>
      rw [Nat.succ_add]
      rw [requestStarts] at h ⊢
      split
      · rename_i hlt
        rw [if_pos hlt, Option.map_eq_some_iff] at h
        obtain ⟨rest, hrest, rfl⟩ := h
        rw [ih hrest]
        rfl
      · rename_i hge
        rwa [if_neg hge] at h

theorem init_mono (more : Nat) {out : Startup.Outside} {fuel : Nat} {result : Startup.Result}
    (hinit : Startup.init E out fuel s = some result) :
    Startup.init E out (fuel + more) s = some result := by
  cases hpeers : (Startup.sendAll E s (out.hosts.map (Startup.connectCall s.client.config.me
      (tipHash s.client.chain)))).client.peers with
  | nil =>
      simp only [Startup.init, hpeers] at hinit ⊢
      exact hinit
  | cons peer others =>
      simp only [Startup.init, hpeers, Option.bind_eq_bind, Option.bind_eq_some_iff] at hinit ⊢
      obtain ⟨peerStarts, hpeerStarts, blockStarts, hblockStarts, hresult⟩ := hinit
      exact ⟨peerStarts, requestStarts_mono hpeerStarts, blockStarts,
        requestStarts_mono hblockStarts, hresult⟩

end Init

/-! ## Starts -/

section Start

variable {parties : List Config} {cfg : Config} {chain : List Block} {w : World}

theorem nodup_me (hdistinct : (parties.map fun c => c.me.toUserHost).Nodup) :
    (parties.map Config.me).Nodup := by
  refine List.Nodup.of_map UserPeer.toUserHost ?_
  rwa [List.map_map]

/-- A list of parties, each once, is not longer than theirs. -/
theorem length_le_parties {peers : List UserPeer} (hnodup : peers.Nodup)
    (hgenuine : ∀ p ∈ peers, ∃ c ∈ parties, c.me = p) : peers.length ≤ parties.length := by
  have hsub : peers ⊆ parties.map Config.me := by
    intro p hp
    obtain ⟨c, hc, rfl⟩ := hgenuine p hp
    exact List.mem_map_of_mem hc
  have hlength := (List.subperm_of_subset hnodup hsub).length_le
  rwa [List.length_map] at hlength

/-- Whoever runs is another party, and one that a starting party can rely on. -/
theorem Inv.hosts (h : Inv E parties chain w) (hoff : w.net cfg.me.toUserHost = none) :
    Hosts parties cfg w.net where
  party {host n} hn := by
    have hn' := h.online hn
    refine ⟨hn'.party, fun heq => ?_⟩
    rw [← hn'.address, heq, hoff] at hn
    cases hn
  address hn := (h.online hn).address
  genuine hn p hp := by
    obtain ⟨c, hc, -, hme⟩ := (h.online hn).genuine p hp
    exact ⟨c, hc, hme⟩

theorem Inv.honest (hsize : parties.length + 12 < 2 ^ 32) (hlen : chain.length + 4 < 2 ^ 32)
    (h : Inv E parties chain w) (hcfg : cfg ∈ parties) (hoff : w.net cfg.me.toUserHost = none)
    {host : UserHost} {n : Node} (hn : w.net host = some n) :
    Startup.Honest E (w.starting cfg).client n := by
  have hn' := h.online hn
  have hoffline := h.offline cfg hcfg hoff
  have hrows : n.chain.rows.length = chain.length := by
    rw [← hn'.load, ChainDB.length_loadAllBlocks]
  refine ⟨?_, ?_, ?_, ?_, ?_⟩
  · rw [validateLocalChain_eq_true, hn'.load]
    exact h.valid
  · rw [hn'.load]
    exact hoffline.load
  · exact hn'.ids.consecutiveIds (hrows ▸ hlen)
  · exact hrows ▸ hlen
  · have hlisted : (PeerService.addPeer n.peers (w.starting cfg).client.config.me).length ≤
        parties.length := by
      refine length_le_parties (PeerService.nodup_addPeer hn'.nodup _) fun p hp => ?_
      rcases PeerService.mem_addPeer.1 hp with hold | rfl
      · obtain ⟨c, hc, -, hme⟩ := hn'.genuine p hold
        exact ⟨c, hc, hme⟩
      · exact ⟨cfg, hcfg, congrArg Config.me hoffline.config.symm⟩
    omega

theorem insertReceived_frame (s : State) :
    (Startup.insertReceived E s).net = s.net ∧
      (Startup.insertReceived E s).client =
        { s.client with chain := (Startup.insertReceived E s).client.chain } ∧
      (Unbroken s.client.chain → Unbroken (Startup.insertReceived E s).client.chain) := by
  rw [Startup.insertReceived]
  split
  · exact ⟨rfl, rfl, fun h => h.insertNewBlocks _⟩
  · exact ⟨rfl, rfl, id⟩

theorem mem_page {l : List UserPeer} {i start stop : Nat} {p : UserPeer} (hp : l[i]? = some p)
    (hstart : start ≤ i) (hstop : i < stop) : p ∈ (l.take stop).drop start := by
  refine List.mem_of_getElem? (i := i - start) ?_
  rw [List.getElem?_drop, Nat.add_sub_cancel' hstart, List.getElem?_take_of_lt hstop]
  exact hp

/-- A party after `init`: it holds the chain and lists everybody that runs. -/
structure Ready (parties : List Config) (cfg : Config) (chain : List Block) (net : Nodes)
    (s : State) : Prop where
  starting : Starting parties cfg net s.client.chain s
  load : ChainDB.loadAllBlocks s.client.chain = chain
  ids : Unbroken s.client.chain
  listed : ∀ {host n}, net host = some n → n.config.me ∈ s.client.peers

/-- `init` asks the first trusted host that runs, and gets the chain from it. -/
theorem Inv.caughtUp (hsize : parties.length + 12 < 2 ^ 32) (hlen : chain.length + 4 < 2 ^ 32)
    (h : Inv E parties chain w) (hcfg : cfg ∈ parties) (hoff : w.net cfg.me.toUserHost = none)
    {out : Startup.Outside} {fuel : Nat} {result : Startup.Result}
    (htrusted : ∃ x ∈ out.hosts, (w.net x.1).isSome)
    (hinit : Startup.init E out fuel (w.starting cfg) = some result)
    (harrive : AllArrive E (w.starting cfg) result.calls) :
    ∃ host n, w.net host = some n ∧ result.peer = some n.config.me ∧
      ChainDB.loadAllBlocks result.state.client.chain = chain := by
  obtain ⟨calls, hinit', harrive'⟩ := init_reachable hinit harrive
  generalize hout : ({ out with hosts := reachable (w.starting cfg) out.hosts } :
    Startup.Outside) = out' at hinit'
  have hhosts : out'.hosts = reachable (w.starting cfg) out.hosts := by rw [← hout]
  have hne : out'.hosts ≠ [] := by
    obtain ⟨x, hx, hsome⟩ := htrusted
    exact hhosts ▸ List.ne_nil_of_mem (List.mem_filter.2 ⟨hx, hsome⟩)
  have hruns : ∀ x ∈ out'.hosts, ∃ n, w.net x.1 = some n := by
    rw [hhosts]
    exact fun x hx => Option.isSome_iff_exists.1 (List.mem_filter.1 hx).2
  obtain ⟨n₁, hn₁⟩ := hruns _ (List.head_mem hne)
  obtain ⟨n₂, hn₂⟩ := hruns _ (List.getLast_mem hne)
  obtain ⟨rest, hcalls⟩ := init_calls hinit'
  have hconnects := harrive'
  dsimp only at hcalls
  rw [hcalls, Startup.allArrive_append] at hconnects
  obtain ⟨found, hfound, hpeer, -, hend⟩ := Startup.init_spec rfl rfl
    (List.head?_eq_some_head hne) (List.getLast?_eq_some_getLast hne) hn₁ hn₂
    (h.honest hsize hlen hcfg hoff hn₁) (h.honest hsize hlen hcfg hoff hn₂) hruns hconnects.1
  -- with more fuel the run of `init_spec` is the given one
  have hsame : found = { result with calls } := by
    have hlarge := hfound (fuel + ((Startup.greeted (w.starting cfg).client.config.me
      n₂).peers.length + Startup.missing (w.starting cfg).client n₂ + 1)) (by omega) (by omega)
    exact Option.some.inj (hlarge.symm.trans (init_mono _ hinit'))
  subst hsame
  obtain ⟨-, hload⟩ := hend harrive'
  refine ⟨_, n₁, hn₁, ?_, ?_⟩
  · dsimp only at hpeer
    rw [hpeer, ← (h.online hn₁).address]
    rfl
  · -- both hosts hold the chain, so the pages of the last one cover that of the first
    rw [hload, (h.online hn₁).load, Startup.missing, (h.online hn₂).load]
    refine List.take_of_length_le ?_
    have hpages := (Paging.pages_spec (k := 4) (chain.length -
      (ChainDB.loadAllBlocks (w.starting cfg).client.chain).length) (by decide)).1
    omega

/-- `init` makes a party ready. -/
theorem Inv.ready (hdistinct : (parties.map fun c => c.me.toUserHost).Nodup)
    (hsize : parties.length + 12 < 2 ^ 32) (hlen : chain.length + 4 < 2 ^ 32)
    (h : Inv E parties chain w) (hcfg : cfg ∈ parties) (hoff : w.net cfg.me.toUserHost = none)
    {out : Startup.Outside} {fuel : Nat} {result : Startup.Result}
    (htrusted : ∃ x ∈ out.hosts, (w.net x.1).isSome)
    (hinit : Startup.init E out fuel (w.starting cfg) = some result)
    (harrive : AllArrive E (w.starting cfg) result.calls)
    (hcovers : ∀ peer ∈ result.peer, ∀ n ∈ result.state.net peer.toUserHost,
      Covers result.peerStarts n.peers.length) :
    Ready parties cfg chain w.net result.state := by
  have hoffline := h.offline cfg hcfg hoff
  have hhosts := h.hosts hoff
  have hkeys := nodup_me hdistinct
  have hconfig : (w.starting cfg).client.config = cfg := hoffline.config
  have hstart : Starting parties cfg w.net (w.starting cfg).client.chain (w.starting cfg) :=
    ⟨hconfig, rfl, List.nodup_nil, fun p hp => absurd hp (by simp [World.starting, reboot]),
      Moved.refl (R := fun _ => Met cfg.me) (fun _ _ => Or.inl rfl) _⟩
  obtain ⟨first, n₁, hn₁, hpeer', hload'⟩ := h.caughtUp hsize hlen hcfg hoff htrusted hinit harrive
  -- the party as it sent its messages
  obtain ⟨others, hpeers⟩ := init_peer hinit hpeer'
  obtain ⟨blockStarts, -, hcalls', hstate⟩ := init_eq_some hinit hpeers
  rw [hconfig] at hcalls' hpeers
  rw [hcalls', Startup.allArrive_append, Startup.allArrive_append] at harrive
  obtain ⟨⟨hgreet, hlist⟩, hrange⟩ := harrive
  have hcallsAre : ∀ c ∈ out.hosts.map (Startup.connectCall cfg.me
      (tipHash (w.starting cfg).client.chain)), IsConnect cfg.me c := by
    intro c hc
    obtain ⟨x, -, rfl⟩ := List.mem_map.1 hc
    exact ⟨{ x.1 with publicKey := "" }, x.2, _, rfl⟩
  obtain ⟨hconnected, hintroduced⟩ := hstart.connects hhosts hkeys hcfg hcallsAre hgreet
  obtain ⟨hlisted, hremembers, hquiet, hpages⟩ := hconnected.peerLists hhosts hlist
  rw [Startup.sendAll_append] at hrange
  obtain ⟨hranged, hremembers', hquiet'⟩ := hlisted.blockRanges hrange
  rw [hcalls', Startup.sendAll_append, Startup.sendAll_append] at hstate
  obtain ⟨hnet, hclient, hunbroken⟩ := insertReceived_frame (E := E) (Startup.sendAll E
    (Startup.sendAll E (Startup.sendAll E (w.starting cfg) (out.hosts.map
      (Startup.connectCall cfg.me (tipHash (w.starting cfg).client.chain))))
      (result.peerStarts.map (Startup.peerListCall cfg.me n₁.config.me out.peerMoments)))
    (blockStarts.map (Startup.blockRangeCall cfg.me n₁.config.me
      (tipHash (w.starting cfg).client.chain) out.blockMoments)))
  rw [← hstate] at hnet hclient hunbroken
  rw [hranged.chain] at hunbroken
  have hpeersEq := congrArg Node.peers hclient
  dsimp only at hpeersEq
  refine ⟨⟨?_, rfl, ?_, ?_, ?_⟩, hload', hunbroken hoffline.ids, fun {host n} hn => ?_⟩
  · rw [hclient]
    exact hranged.config
  · rw [hpeersEq]
    exact hranged.nodup
  · rw [hpeersEq]
    exact hranged.genuine
  · rw [hnet]
    exact hranged.net
  · rw [hpeersEq]
    by_cases hhost : host = first
    · -- the host that was asked
      rw [hhost] at hn
      cases hn₁.symm.trans hn
      refine hremembers' (hremembers ?_)
      rw [hpeers]
      exact List.mem_cons_self ..
    · -- everybody else stands on one of its pages
      obtain ⟨n₁', hn₁', hmet⟩ := hconnected.net.of_some hn₁
      have hother : n.config.me ≠ cfg.me := fun heq =>
        (hhosts.party hn).2 (me_injective hkeys (hhosts.party hn).1 hcfg heq)
      have hknown : n.config.me ∈ n₁'.peers :=
        (hmet.mem_peers hother).2 ((h.online hn₁).knows hn hhost)
      obtain ⟨i, hi⟩ := List.mem_iff_getElem?.1 hknown
      have hilt : i < n₁'.peers.length := (List.getElem?_eq_some_iff.1 hi).1
      have haddress := (h.online hn₁).address
      have hrunning : result.state.net n₁.config.me.toUserHost = some n₁' := by
        rw [hnet, hquiet', hquiet, haddress]
        exact hn₁'
      obtain ⟨start, hmem, hle, hlt⟩ := hcovers _ hpeer' n₁' hrunning i hilt
      have hroom : start.toNat + 12 < 2 ^ 32 := by
        have hshort := (h.honest hsize hlen hcfg hoff hn₁).peers
        have hlonger : n₁'.peers.length ≤
            (PeerService.addPeer n₁.peers (w.starting cfg).client.config.me).length := by
          rw [hconfig]
          rcases hmet with rfl | rfl
          · exact (List.subperm_of_subset (h.online hn₁).nodup fun p hp =>
              PeerService.mem_addPeer.2 (Or.inl hp)).length_le
          · exact le_rfl
        omega
      have hstop : i < (start + peersBatchSize).toNat := by
        rw [PeerPages.toNat_next hroom]
        exact hlt
      refine hremembers' (hpages n₁' ?_ start hmem _ (mem_page hi hle hstop) hother)
      rw [haddress]
      exact hn₁'

/-- The others after the party has met them. -/
theorem Online.met {net net' : Nodes} {host : UserHost} {n n' : Node}
    (h : Online parties chain net host n) (hcfg : cfg ∈ parties) (hne : n.config ≠ cfg)
    (hmet : Met cfg.me n n')
    (hknows : ∀ {host' m'}, net' host' = some m' → host' ≠ host →
      m'.config.me ∈ n'.peers) : Online parties chain net' host n' where
  party := hmet.config ▸ h.party
  address := hmet.config ▸ h.address
  nodup := by
    rcases hmet with rfl | rfl
    · exact h.nodup
    · exact PeerService.nodup_addPeer h.nodup _
  genuine p hp := by
    rw [hmet.config]
    by_cases hme : p = cfg.me
    · exact ⟨cfg, hcfg, hne.symm, hme.symm⟩
    · exact h.genuine p ((hmet.mem_peers hme).1 hp)
  knows := hknows
  load := hmet.chain ▸ h.load
  ids := hmet.chain ▸ h.ids

/-- A party that is ready runs once it has sent its CONNECTs. -/
theorem Inv.join (hdistinct : (parties.map fun c => c.me.toUserHost).Nodup)
    (h : Inv E parties chain w) (hcfg : cfg ∈ parties) (hoff : w.net cfg.me.toUserHost = none)
    {s : State} (hready : Ready parties cfg chain w.net s) {moments : UserPeer → Moment}
    (harrive : AllArrive E s (connectCalls moments s.client)) :
    Inv E parties chain (w.join (connectToAllPeers E moments s)) := by
  have hhosts := h.hosts hoff
  have hcalls : ∀ c ∈ connectCalls moments s.client, IsConnect cfg.me c := by
    intro c hc
    obtain ⟨p, -, rfl⟩ := List.mem_map.1 hc
    rw [hready.starting.config]
    exact ⟨p, moments p, "0", rfl⟩
  obtain ⟨hend, hintroduced⟩ := hready.starting.connects hhosts (nodup_me hdistinct) hcfg hcalls
    harrive
  change Starting parties cfg w.net s.client.chain (connectToAllPeers E moments s) at hend
  change Introduced cfg.me w.net _ s (connectToAllPeers E moments s) at hintroduced
  generalize connectToAllPeers E moments s = s' at hend hintroduced
  have hown : s'.client.config.me = cfg.me := congrArg Config.me hend.config
  have hnone : s'.net cfg.me.toUserHost = none := hend.net.eq_none_iff.2 hoff
  -- everybody who runs was in the list, and lists the party now
  have hknown : ∀ {host n'}, s'.net host = some n' → cfg.me ∈ n'.peers := by
    intro host n' hn'
    obtain ⟨n, hn, -⟩ := hend.net.exists_of_some hn'
    have hlisted := hready.listed hn
    refine hintroduced.known host (Or.inl ?_) n' hn'
    rw [connectCalls, List.map_map, ← hhosts.address hn]
    exact List.mem_map.2 ⟨_, hlisted, rfl⟩
  refine ⟨h.valid, fun {host n'} hn' => ?_, fun c hc hcoff => ?_, cfg, hcfg, Or.inl ?_⟩
  · rw [World.join, hown] at hn' ⊢
    dsimp only at hn' ⊢
    by_cases hhost : host = cfg.me.toUserHost
    · subst hhost
      rw [Function.update_self] at hn'
      cases hn'
      refine ⟨hend.config ▸ hcfg, congrArg UserPeer.toUserHost hown, hend.nodup, ?_, ?_,
        hend.chain ▸ hready.load, hend.chain ▸ hready.ids⟩
      · intro p hp
        obtain ⟨hne, c, hc, hme⟩ := hend.genuine p hp
        exact ⟨c, hc, fun heq => hne (by rw [← hme, heq, hown]), hme⟩
      · intro host' m' hm' hne
        rw [Function.update_of_ne hne] at hm'
        obtain ⟨m, hm, hmet⟩ := hend.net.exists_of_some hm'
        rw [hmet.config]
        exact hintroduced.remembers (hready.listed hm)
    · rw [Function.update_of_ne hhost] at hn'
      obtain ⟨n, hn, hmet⟩ := hend.net.exists_of_some hn'
      refine (h.online hn).met hcfg (hhosts.party hn).2 hmet fun {host' m'} hm' hne => ?_
      by_cases hhost' : host' = cfg.me.toUserHost
      · rw [hhost', Function.update_self] at hm'
        cases hm'
        rw [hown]
        exact hknown hn'
      · rw [Function.update_of_ne hhost'] at hm'
        obtain ⟨m, hm, hmet'⟩ := hend.net.exists_of_some hm'
        rw [hmet'.config]
        have hold := (h.online hn).knows hm hne
        rcases hmet with rfl | rfl
        · exact hold
        · exact PeerService.mem_addPeer.2 (Or.inl hold)
  · rw [World.join, hown] at hcoff ⊢
    dsimp only at hcoff ⊢
    by_cases hhost : c.me.toUserHost = cfg.me.toUserHost
    · rw [hhost, Function.update_self] at hcoff
      cases hcoff
    · rw [Function.update_of_ne hhost] at hcoff
      exact h.offline c hc (hend.net.eq_none_iff.1 hcoff)
  · rw [World.join, hown]
    dsimp only
    rw [Function.update_self]
    rfl

/-! ### The first to start -/

theorem sendAll_of_nobody {s : State} (hnobody : ∀ host, s.net host = none) (calls : List Call) :
    ∃ thrown, Startup.sendAll E s calls = { s with thrown } := by
  induction calls generalizing s with
  | nil => exact ⟨s.thrown, rfl⟩
  | cons c calls ih =>
      obtain ⟨thrown, hsend⟩ := send_of_unreachable (E := E) (hnobody c.host)
      rw [Startup.sendAll, List.foldl_cons, hsend]
      exact ih hnobody

/-- When nobody runs, `init` does nothing. -/
theorem init_of_nobody {s : State} (hnobody : ∀ host, s.net host = none)
    (hpeers : s.client.peers = []) (hblocks : s.client.newBlocks = []) {out : Startup.Outside}
    {fuel : Nat} {result : Startup.Result} (hinit : Startup.init E out fuel s = some result) :
    ∃ thrown, result.state = { s with thrown } := by
  obtain ⟨thrown, hsent⟩ := sendAll_of_nobody (E := E) hnobody
    (out.hosts.map (Startup.connectCall s.client.config.me (tipHash s.client.chain)))
  simp only [Startup.init, hsent, hpeers] at hinit
  cases hinit
  refine ⟨thrown, ?_⟩
  rw [Startup.insertReceived, hblocks]
  split <;> rfl

/-- A party that has all blocks runs alone. -/
theorem Inv.first (h : Inv E parties chain w) (hnobody : ∀ host, w.net host = none)
    (hcfg : cfg ∈ parties) (hall : ∀ c ∈ parties,
      ChainDB.loadAllBlocks (w.stopped c.me.toUserHost).chain <+:
        ChainDB.loadAllBlocks (w.stopped cfg.me.toUserHost).chain) :
    Inv E parties chain (w.join (w.starting cfg)) := by
  have hoffline := h.offline cfg hcfg (hnobody _)
  have hown : (w.starting cfg).client.config.me = cfg.me := congrArg Config.me hoffline.config
  have hload : ChainDB.loadAllBlocks (w.stopped cfg.me.toUserHost).chain = chain := by
    obtain ⟨c, hc, hruns | hkept⟩ := h.kept
    · rw [hnobody] at hruns
      cases hruns
    · exact hoffline.load.sublist.antisymm (hkept ▸ (hall c hc).sublist)
  have hnet : (w.join (w.starting cfg)).net =
      Function.update w.net cfg.me.toUserHost (some (reboot (w.stopped cfg.me.toUserHost))) := by
    rw [World.join, hown]
    rfl
  -- nobody else runs
  have honly : ∀ {host n}, (w.join (w.starting cfg)).net host = some n →
      host = cfg.me.toUserHost ∧ n = reboot (w.stopped cfg.me.toUserHost) := by
    intro host n hn
    rw [hnet] at hn
    by_cases hhost : host = cfg.me.toUserHost
    · rw [hhost, Function.update_self] at hn
      exact ⟨hhost, (Option.some.inj hn).symm⟩
    · rw [Function.update_of_ne hhost, hnobody] at hn
      cases hn
  refine ⟨h.valid, fun {host n} hn => ?_, fun c hc _ => h.offline c hc (hnobody _), cfg, hcfg,
    Or.inl ?_⟩
  · obtain ⟨rfl, rfl⟩ := honly hn
    have hconfig : (reboot (w.stopped cfg.me.toUserHost)).config = cfg := hoffline.config
    refine ⟨hconfig.symm ▸ hcfg, congrArg UserPeer.toUserHost hown, List.nodup_nil,
      fun p hp => absurd hp (by simp [reboot]), fun {host' n'} hn' hne => ?_, hload, hoffline.ids⟩
    exact absurd (honly hn').1 hne
  · rw [hnet, Function.update_self]
    rfl

end Start

/-! ## Leaving and vanishing -/

section Leave

variable {parties : List Config} {chain : List Block} {w : World}

/-- A node from which `me` has taken its leave, or not. -/
def Left (me : UserPeer) (n n' : Node) : Prop :=
  n' = { n with peers := n'.peers } ∧ n'.peers.Sublist n.peers ∧
    ∀ p ∈ n.peers, p ≠ me → p ∈ n'.peers

theorem Left.refl (me : UserPeer) (n : Node) : Left me n n :=
  ⟨rfl, List.Sublist.refl _, fun _ hp _ => hp⟩

theorem Left.trans {me : UserPeer} {n n' n'' : Node} (h : Left me n n') (h' : Left me n' n'') :
    Left me n n'' := by
  obtain ⟨hsame, hsub, hkeeps⟩ := h
  obtain ⟨hsame', hsub', hkeeps'⟩ := h'
  refine ⟨?_, hsub'.trans hsub, fun p hp hne => hkeeps' p (hkeeps p hp hne) hne⟩
  rw [hsame', hsame]

/-- A DISCONNECT takes the sender out of a list, if it arrives, and does nothing else. -/
theorem send_disconnect (s : State) (me peer : UserPeer) (moments : UserPeer → Moment) :
    (Startup.send E s (disconnectCall me moments peer)).client = s.client ∧
      Moved (fun _ => Left me) s.net (Startup.send E s (disconnectCall me moments peer)).net := by
  have hstays : Moved (fun _ => Left me) s.net s.net :=
    Moved.refl (R := fun _ => Left me) (fun _ n => Left.refl me n) _
  obtain ⟨thrown, hsend⟩ | ⟨server, server', client', hn, hsent, hsend⟩ :=
    Startup.send_cases (E := E) s (disconnectCall me moments peer)
  · rw [hsend]
    exact ⟨rfl, hstays⟩
  · have hserve := TCPServer.serve_of_decode (E := E) (n := server) (moments peer).visit rfl
      (Request.decode_disconnection (m := Message.create (moments peer).sent .disconnect me peer)
        rfl)
    have hleft : Left me server { server with
        peers := PeerService.removePeer server.peers me } :=
      ⟨rfl, List.erase_sublist, fun p hp hne => (List.mem_erase_of_ne hne).2 hp⟩
    have hanswer : ∀ answer : Message, answer.type = .disconnectResponse →
        ChatService.handleOutgoingMessage s.client (some answer.basicSerialization) = s.client :=
      fun answer htype => Request.handleOutgoingMessage_of_dispatch
        (Request.dispatchOutgoing_basicSerialization s.client (Or.inr htype))
    rw [hsend]
    rcases sendMessage_cases hserve s.client with ⟨e, hthrown⟩ | hlost | hlost | harrived
    · exact absurd (hthrown.symm.trans hsent) (by simp)
    · cases hlost.symm.trans hsent
      refine ⟨rfl, ?_⟩
      rw [← hn, Function.update_eq_self]
      exact hstays
    · cases hlost.symm.trans hsent
      exact ⟨rfl, Moved.update (R := fun _ => Left me) hn hleft fun _ n _ => Left.refl me n⟩
    · cases harrived.symm.trans hsent
      exact ⟨hanswer (Message.create (moments peer).visit.tick .disconnectResponse peer me) rfl,
        Moved.update (R := fun _ => Left me) hn hleft fun _ n _ => Left.refl me n⟩

theorem disconnect_spec (moments : UserPeer → Moment) (s : State) :
    (disconnect E moments s).client = s.client ∧
      Moved (fun _ => Left s.client.config.me) s.net (disconnect E moments s).net := by
  have hall : ∀ (peers : List UserPeer) (s : State) (me : UserPeer),
      (Startup.sendAll E s (peers.map (disconnectCall me moments))).client = s.client ∧
        Moved (fun _ => Left me) s.net
          (Startup.sendAll E s (peers.map (disconnectCall me moments))).net := by
    intro peers
    induction peers with
    | nil => exact fun s me => ⟨rfl, Moved.refl (R := fun _ => Left me) (fun _ n => .refl me n) _⟩
    | cons peer peers ih =>
        intro s me
        obtain ⟨hclient, hmoved⟩ := send_disconnect (E := E) s me peer moments
        obtain ⟨hrest, hothers⟩ := ih (Startup.send E s (disconnectCall me moments peer)) me
        exact ⟨hrest.trans hclient, hmoved.trans (fun _ _ _ _ h h' => h.trans h') hothers⟩
  exact hall s.client.peers s s.client.config.me

/-- A node has stopped, and some of the others may have heard of it. -/
theorem Inv.stop (hdistinct : (parties.map fun c => c.me.toUserHost).Nodup)
    (h : Inv E parties chain w) {host : UserHost} {n : Node} (hn : w.net host = some n)
    {net : Nodes}
    (hleft : Moved (fun _ => Left n.config.me) (Function.update w.net host none) net) :
    Inv E parties chain (w.stop net host n) := by
  have hgone : net host = none := hleft.eq_none_iff.2 (Function.update_self ..)
  -- who runs afterwards ran before, and may have dropped the one that left
  have hothers : ∀ {host' m'}, net host' = some m' → host' ≠ host ∧
      ∃ m, w.net host' = some m ∧ Left n.config.me m m' := by
    intro host' m' hm'
    have hne : host' ≠ host := by
      rintro rfl
      rw [hgone] at hm'
      cases hm'
    obtain ⟨m, hm, hrel⟩ := hleft.exists_of_some hm'
    rw [Function.update_of_ne hne] at hm
    exact ⟨hne, m, hm, hrel⟩
  have haddress := (h.online hn).address
  refine ⟨h.valid, fun {host' m'} hm' => ?_, fun c hc hcoff => ?_, n.config, (h.online hn).party,
    Or.inr ?_⟩
  · obtain ⟨hne, m, hm, hsame, hsub, hkeeps⟩ := hothers hm'
    have hold := h.online hm
    have hconfig : m'.config = m.config := by rw [hsame]
    have hchain : m'.chain = m.chain := by rw [hsame]
    refine ⟨hconfig ▸ hold.party, hconfig ▸ hold.address, hold.nodup.sublist hsub, ?_, ?_,
      hchain ▸ hold.load, hchain ▸ hold.ids⟩
    · intro p hp
      rw [hconfig]
      exact hold.genuine p (hsub.subset hp)
    · intro host'' m'' hm'' hne''
      obtain ⟨hne', k, hk, hsame', -⟩ := hothers hm''
      have hconfig' : m''.config = k.config := by rw [hsame']
      rw [hconfig']
      refine hkeeps _ (hold.knows hk hne'') fun heq => hne' ?_
      rw [← (h.online hk).address, heq, haddress]
  -- a party that does not run keeps the chain: the one that left, or one that was off before
  · rw [World.stop] at hcoff ⊢
    dsimp only at hcoff ⊢
    by_cases hhost : c.me.toUserHost = host
    · rw [hhost, Function.update_self]
      have hsame : n.config = c := List.inj_on_of_nodup_map hdistinct (h.online hn).party hc
        (haddress.trans hhost.symm)
      exact ⟨hsame, by rw [(h.online hn).load], (h.online hn).ids⟩
    · rw [Function.update_of_ne hhost]
      have hnone := hleft.eq_none_iff.1 hcoff
      rw [Function.update_of_ne hhost] at hnone
      exact h.offline c hc hnone
  · rw [World.stop, haddress]
    dsimp only
    rw [Function.update_self]
    exact (h.online hn).load

end Leave

/-! ## Sends among those that run -/

theorem isSome_request (net : Nodes) (host : UserHost) (visit : Visit) (jData : Json)
    (h : UserHost) : ((request E net host visit jData).1 h).isSome = (net h).isSome := by
  rw [request]
  cases received jData with
  | none => rfl
  | some jData =>
      dsimp only
      by_cases hh : h = host
      · rw [hh, modify_self, Option.isSome_map]
      · rw [modify_of_ne hh]

theorem isSome_sendCallback (out : TCPClient.Outside) (raw : Json) (peer : UserPeer) (net : Nodes)
    (h : UserHost) : ((sendCallback E out raw peer net).2 h).isSome = (net h).isSome := by
  rw [sendCallback]
  cases net peer.toUserHost with
  | none => rfl
  | some n =>
      have hrequest := isSome_request (E := E) net peer.toUserHost (out.blockVisit peer) raw h
      dsimp only
      split <;> exact hrequest

/-- The loop of `storeAndBroadcastBlock` passes over the peers that do not run. -/
theorem broadcast_reachable (out : TCPClient.Outside) (raw : Json) (peers : List UserPeer)
    (net : Nodes) :
    broadcast (sendCallback E out raw) peers net =
      broadcast (sendCallback E out raw)
        (peers.filter fun p => (net p.toUserHost).isSome) net := by
  induction peers generalizing net with
  | nil => rfl
  | cons p peers ih =>
      have hfilter : (peers.filter fun q =>
          ((sendCallback E out raw p net).2 q.toUserHost).isSome) =
            peers.filter fun q => (net q.toUserHost).isSome := by
        simp only [isSome_sendCallback]
      have hrest := ih (sendCallback E out raw p net).2
      rw [hfilter] at hrest
      cases hp : net p.toUserHost with
      | none =>
          have hskip : sendCallback E out raw p net = (.ok true, net) := by
            simp only [sendCallback, hp]
          rw [List.filter_cons_of_neg (by simp [hp]), broadcast, hskip]
          rw [hskip] at hrest
          exact hrest
      | some n =>
          rw [List.filter_cons_of_pos (by simp [hp]), broadcast, broadcast]
          rcases hcall : sendCallback E out raw p net with ⟨answer, net'⟩
          rw [hcall] at hrest
          rcases answer with e | taken
          · rfl
          · cases taken
            · rfl
            · exact hrest

/-- When all peers that run can take the block, all of them do. -/
theorem broadcast_running (out : TCPClient.Outside) {block : Block} {peers : List UserPeer}
    {net : Nodes} (hlen : block.toJson.dumpLen ≤ bufferSize - 1)
    (hdistinct : (peers.map UserPeer.toUserHost).Nodup)
    (hacceptable : ∀ p ∈ peers, ∀ n, net p.toUserHost = some n →
      Acceptable E (out.blockVisit p).checked n.chain block) :
    (broadcast (sendCallback E out block.toJson) peers net).1 = true ∧
      ∀ h, (broadcast (sendCallback E out block.toJson) peers net).2 h =
        if h ∈ peers.map UserPeer.toUserHost then
          (net h).map fun n => { n with chain := (ChainDB.insertBlock n.chain block).1 }
        else net h := by
  -- the peers that do not run are passed over
  let running := peers.filter fun p => (net p.toUserHost).isSome
  obtain ⟨hall, hnodes⟩ := broadcast_all (E := E) out hlen
    (hdistinct.sublist (List.filter_sublist.map _) : (running.map UserPeer.toUserHost).Nodup)
    fun p hp => by
      obtain ⟨hmem, hsome⟩ := List.mem_filter.1 hp
      obtain ⟨n, hn⟩ := Option.isSome_iff_exists.1 hsome
      exact ⟨n, hn, hacceptable p hmem n hn⟩
  rw [← broadcast_reachable] at hall hnodes
  refine ⟨hall, fun h => ?_⟩
  rw [hnodes]
  by_cases hrunning : h ∈ running.map UserPeer.toUserHost
  · rw [if_pos hrunning, if_pos ((List.filter_sublist.map _).subset hrunning)]
  · rw [if_neg hrunning]
    split
    · -- a peer that is passed over does not run
      rename_i hlisted
      obtain ⟨p, hp, rfl⟩ := List.mem_map.1 hlisted
      cases hn : net p.toUserHost with
      | none => rfl
      | some n =>
          exact absurd (List.mem_map_of_mem (List.mem_filter.2 ⟨hp, by rw [hn]; rfl⟩)) hrunning
    · rfl

/-- When the sender itself can take the block too, it has it as well. -/
theorem storeAndBroadcastBlock_running (out : TCPClient.Outside) {own : UserHost} {block : Block}
    {net : Nodes} {sender : Node} (hown : net own = some sender)
    (hlen : block.toJson.dumpLen ≤ bufferSize - 1)
    (hdistinct : (own :: sender.peers.map UserPeer.toUserHost).Nodup)
    (hacceptable : ∀ p ∈ sender.peers, ∀ n, net p.toUserHost = some n →
      Acceptable E (out.blockVisit p).checked n.chain block)
    (hinsert : (ChainDB.insertBlock sender.chain block).2 = true) :
    (storeAndBroadcastBlock E out own block net).1 = true ∧
      ∀ h, (storeAndBroadcastBlock E out own block net).2 h =
        if h ∈ own :: sender.peers.map UserPeer.toUserHost then
          (net h).map fun n => { n with chain := (ChainDB.insertBlock n.chain block).1 }
        else net h := by
  rw [List.nodup_cons] at hdistinct
  obtain ⟨hall, hnodes⟩ := broadcast_running out hlen hdistinct.2 hacceptable
  rcases hbroadcast : broadcast (sendCallback E out block.toJson) sender.peers net with ⟨sent, net'⟩
  rw [hbroadcast] at hall hnodes
  dsimp only at hall hnodes
  subst hall
  -- the sender is none of its peers, so the broadcast leaves it alone
  have hown' : net' own = some sender := by rw [hnodes, if_neg hdistinct.1, hown]
  have hstep : storeAndBroadcastBlock E out own block net =
      ((ChainDB.insertBlock sender.chain block).2,
        modify own (fun n => { n with chain := (ChainDB.insertBlock sender.chain block).1 })
          net') := by
    simp only [storeAndBroadcastBlock, hown, Option.map_some, Option.getD_some, hbroadcast, hown']
    rfl
  rw [hstep]
  refine ⟨hinsert, fun h => ?_⟩
  by_cases hself : h = own
  · subst hself
    simp [hown', hown]
  · dsimp only
    rw [modify_of_ne hself, hnodes]
    simp only [List.mem_cons, hself, false_or]

/-! ## A send -/

section Sends

variable {parties : List Config} {chain : List Block} {w : World}

/-- The nodes that run hold the longer chain, and are as they were otherwise. -/
theorem Inv.moved {chain' : List Block} {net : Nodes} (h : Inv E parties chain w)
    {host : UserHost} {n : Node} (hn : w.net host = some n)
    (hvalid : ValidBlocks E chain') (hgrows : chain <+: chain')
    (hmoved : Moved (fun _ n n' => n'.config = n.config ∧ n'.peers = n.peers ∧
      ChainDB.loadAllBlocks n'.chain = chain' ∧ Unbroken n'.chain) w.net net) :
    Inv E parties chain' { w with net } := by
  refine ⟨hvalid, fun {host n'} hn' => ?_, fun cfg hcfg hoff => ?_, n.config, (h.online hn).party,
    Or.inl ?_⟩
  · obtain ⟨n, hn, hconfig, hpeers, hload, hids⟩ := hmoved.exists_of_some hn'
    have hold := h.online hn
    refine ⟨hconfig ▸ hold.party, hconfig ▸ hold.address, hpeers ▸ hold.nodup, ?_, ?_, hload, hids⟩
    · intro p hp
      rw [hconfig]
      exact hold.genuine p (hpeers ▸ hp)
    · intro host' m' hm' hne
      obtain ⟨m, hm, hconfig', -⟩ := hmoved.exists_of_some hm'
      rw [hconfig', hpeers]
      exact hold.knows hm hne
  · have hold := h.offline cfg hcfg (hmoved.eq_none_iff.1 hoff)
    exact ⟨hold.config, hold.load.trans hgrows, hold.ids⟩
  · obtain ⟨n', hn', -⟩ := hmoved.of_some hn
    rw [(h.online hn).address]
    exact Option.isSome_iff_exists.2 ⟨n', hn'⟩

/-- The peers of a node that runs are at different addresses, and not at its own. -/
theorem Online.distinct (hdistinct : (parties.map fun c => c.me.toUserHost).Nodup) {net : Nodes}
    {host : UserHost} {n : Node} (h : Online parties chain net host n) :
    (host :: n.peers.map UserPeer.toUserHost).Nodup := by
  have hsame : ∀ {c d : Config}, c ∈ parties → d ∈ parties →
      c.me.toUserHost = d.me.toUserHost → c = d := fun hc hd heq =>
    List.inj_on_of_nodup_map hdistinct hc hd heq
  refine List.nodup_cons.2 ⟨fun hmem => ?_, List.Nodup.map_on (fun p hp q hq heq => ?_) h.nodup⟩
  · obtain ⟨p, hp, hhost⟩ := List.mem_map.1 hmem
    obtain ⟨c, hc, hne, rfl⟩ := h.genuine p hp
    exact hne (hsame hc h.party (hhost.trans h.address.symm))
  · obtain ⟨c, hc, -, rfl⟩ := h.genuine p hp
    obtain ⟨d, hd, -, rfl⟩ := h.genuine q hq
    rw [hsame hc hd heq]

/-- When both ends run, a text that fits is stored by everybody that runs. -/
theorem Inv.store (laws : E.crypto.SignatureLaws) (session : E.crypto.SessionLaws)
    (compact : E.crypto.CompactLaws)
    (hdistinct : (parties.map fun c => c.me.toUserHost).Nodup)
    (hkeys : ∀ cfg ∈ parties, cfg.KeyPairMatches E) (h : Inv E parties chain w) {s : Send}
    (hsender : s.sender ∈ parties) (hrecipient : s.recipient ∈ parties) (hfits : s.Fits E)
    (htime : s.InTime parties) {sender r : Node}
    (hown : w.net s.sender.me.toUserHost = some sender)
    (hto : w.net s.recipient.me.toUserHost = some r) :
    ∃ block, (s.run E w.net).2.block? = some block ∧
      (E.CollisionFree (Block.canonicals (chain ++ [block])) →
        (∃ answer, (s.run E w.net).2 = .stored block answer) ∧
          Inv E parties (chain ++ [block]) { w with net := (s.run E w.net).1 }) := by
  have hsender' := h.online hown
  have hconfig : sender.config = s.sender :=
    List.inj_on_of_nodup_map hdistinct hsender'.party hsender hsender'.address
  obtain ⟨block, jMessage, hsign, hjson, hprepared, -⟩ :=
    Send.prepared laws session (hkeys _ hsender) (hkeys _ hrecipient) hconfig
  have hprepare := hprepared hfits
  refine ⟨block, ?_, fun hS => ?_⟩
  · -- either way a block was made
    cases hstored : (storeAndBroadcastBlock E s.out s.sender.me.toUserHost block
      (deliver E s.out s.sender.me.toUserHost s.message block jMessage w.net).1).1 with
    | true => rw [Send.run, (sendSecretMessage_stored hown hprepare hto hstored).2]; rfl
    | false => rw [Send.run, (sendSecretMessage_rolledBack hown hprepare hto hstored).2]; rfl
  rw [hconfig] at hsign
  have hauthor : s.message.fromPeer.publicKey = s.sender.publicKey := rfl
  have hof := blockOf_of_signBlock laws (hkeys _ hsender) hauthor hsign
  have hmillis : s.message.timestamp.toNat = s.tick.now.millis := toNat_getTimestamp s.tick.now
  -- the block continues the chain of those that run
  have hblocks : ValidBlocks E (ChainDB.loadAllBlocks sender.chain) := hsender'.load.symm ▸ h.valid
  have hnext : ValidBlocks E (chain ++ [block]) := by
    rw [← hsender'.load]
    exact hblocks.concat hof.authentic (hof.previousHash.trans (findTip_hash _))
  have hstorable : block.Storable := by
    refine hof.storable ((findTip_hash sender.chain).symm ▸ hblocks.noNul_tip) ?_
    have hnow := getTimestamp_lt s.tick.now
    rw [toNat_getTimestamp] at hnow
    rw [hmillis]
    omega
  have hinsert : ∀ {t : BlockTable}, ChainDB.loadAllBlocks t = chain →
      (ChainDB.insertBlock t block).2 = true ∧
        ChainDB.loadAllBlocks (ChainDB.insertBlock t block).1 = chain ++ [block] := by
    intro t ht
    rw [← ht] at hnext hS ⊢
    exact insertBlock_continues hnext hstorable (hnext.nodup_hash hS)
  -- the delivery leaves lists and chains as they are
  have hdeliver := deliver_moved s.sender.me.toUserHost w.net rfl hjson
  generalize hnet : (deliver E s.out s.sender.me.toUserHost s.message block jMessage w.net).1 = net
    at hdeliver
  obtain ⟨sender₁, hown₁, hsame⟩ := hdeliver.of_some hown
  have hpeers : sender₁.peers = sender.peers := by rw [hsame.same]
  have hload : ∀ {host n}, net host = some n → ChainDB.loadAllBlocks n.chain = chain := by
    intro host n hn
    obtain ⟨m, hm, hdelivered⟩ := hdeliver.exists_of_some hn
    rw [hdelivered.same]
    exact (h.online hm).load
  have hacceptable : ∀ p ∈ sender₁.peers, ∀ n, net p.toUserHost = some n →
      Acceptable E (s.out.blockVisit p).checked n.chain block := by
    intro p hp n hn
    obtain ⟨c, hc, -, rfl⟩ := hsender'.genuine p (hpeers ▸ hp)
    have hn' := hload hn
    rw [← hn'] at hnext hS
    refine acceptable_of_continues hnext hS ?_
    rw [hof.timestamp, hmillis]
    exact htime c hc
  obtain ⟨hstored, hnodes⟩ := storeAndBroadcastBlock_running (E := E) s.out hown₁
    (dumpLen_blockOf compact (hkeys _ hsender) laws hauthor hblocks hsign)
    (hpeers ▸ hsender'.distinct hdistinct) hacceptable (hinsert (hload hown₁)).1
  rw [← hnet] at hstored
  obtain ⟨hend, houtcome⟩ := sendSecretMessage_stored hown hprepare hto hstored
  refine ⟨⟨_, houtcome⟩, ?_⟩
  have hrun : (s.run E w.net).1 =
      (storeAndBroadcastBlock E s.out s.sender.me.toUserHost block net).2 := hnet ▸ hend
  rw [hrun]
  refine h.moved hown hnext (List.prefix_append ..) fun host => ?_
  rw [hnodes]
  cases hn : w.net host with
  | none =>
      rw [hdeliver.eq_none_iff.2 hn]
      split <;> exact .none
  | some n =>
      obtain ⟨m, hm, hdelivered⟩ := hdeliver.of_some hn
      have hreached : host ∈ s.sender.me.toUserHost :: sender₁.peers.map UserPeer.toUserHost := by
        by_cases hself : host = s.sender.me.toUserHost
        · exact hself ▸ List.mem_cons_self ..
        · have hlisted := hpeers.symm ▸ hsender'.knows hn hself
          exact List.mem_cons_of_mem _ (List.mem_map.2 ⟨_, hlisted, (h.online hn).address⟩)
      rw [if_pos hreached, hm, Option.map_some]
      have hchain : m.chain = n.chain := by rw [hdelivered.same]
      exact .some ⟨by rw [hdelivered.same], by rw [hdelivered.same], (hinsert (hload hm)).2,
        (hchain ▸ (h.online hn).ids).insertBlock block⟩

/-- Any send: the nodes that run hold the chain, with the block if one was made. -/
theorem Inv.send (laws : E.crypto.SignatureLaws) (session : E.crypto.SessionLaws)
    (compact : E.crypto.CompactLaws)
    (hdistinct : (parties.map fun c => c.me.toUserHost).Nodup)
    (hkeys : ∀ cfg ∈ parties, cfg.KeyPairMatches E) (h : Inv E parties chain w) {s : Send}
    (hsender : s.sender ∈ parties) (hrecipient : s.recipient ∈ parties)
    (htime : s.InTime parties)
    (hS : E.CollisionFree (Block.canonicals (chain ++ (s.run E w.net).2.block?.toList))) :
    Inv E parties (chain ++ (s.run E w.net).2.block?.toList)
      { w with net := (s.run E w.net).1 } := by
  -- three ways in which nothing is sent
  have hnothing : ∀ outcome, s.run E w.net = (w.net, outcome) → outcome.block? = none →
      Inv E parties (chain ++ (s.run E w.net).2.block?.toList)
        { w with net := (s.run E w.net).1 } := by
    intro outcome hrun hblock
    rw [hrun, hblock, Option.toList_none, List.append_nil]
    exact h
  cases hown : w.net s.sender.me.toUserHost with
  | none => exact hnothing .unreachable (by simp only [Send.run, sendSecretMessage, hown]) rfl
  | some sender =>
      have hconfig : sender.config = s.sender := List.inj_on_of_nodup_map hdistinct
        (h.online hown).party hsender (h.online hown).address
      obtain ⟨block, jMessage, -, -, hprepared, hrefused⟩ :=
        Send.prepared laws session (hkeys _ hsender) (hkeys _ hrecipient) hconfig
      by_cases hfits : s.Fits E
      · cases hto : w.net s.recipient.me.toUserHost with
        | none =>
            have hto' : w.net s.message.toPeer.toUserHost = none := hto
            exact hnothing .unreachable
              (by simp only [Send.run, sendSecretMessage, hown, hprepared hfits, hto']) rfl
        | some r =>
            obtain ⟨block, hblock, hstore⟩ := h.store laws session compact hdistinct hkeys hsender
              hrecipient hfits htime hown hto
            rw [hblock] at hS ⊢
            exact (hstore hS).2
      · exact hnothing (.thrown (.std "Message is too big"))
          (by simp only [Send.run, sendSecretMessage, hown, hrefused hfits]) rfl

end Sends

/-! ## Any run -/

section Runs

variable {parties : List Config} {chain made : List Block} {w w' : World}

/-- One step. -/
theorem Inv.step (laws : E.crypto.SignatureLaws) (session : E.crypto.SessionLaws)
    (compact : E.crypto.CompactLaws)
    (hdistinct : (parties.map fun c => c.me.toUserHost).Nodup)
    (hkeys : ∀ cfg ∈ parties, cfg.KeyPairMatches E) (hsize : parties.length + 12 < 2 ^ 32)
    (h : Inv E parties chain w) (hstep : Step E parties w made w')
    (hlen : chain.length + 4 < 2 ^ 32)
    (hS : E.CollisionFree (Block.canonicals (chain ++ made))) :
    Inv E parties (chain ++ made) w' := by
  cases hstep with
  | @first cfg out fuel result moments hcfg hnobody hall hinit =>
      obtain ⟨thrown, hstate⟩ := init_of_nobody hnobody rfl rfl hinit
      have hquiet : connectToAllPeers E moments result.state = result.state := by
        rw [hstate]
        rfl
      rw [hquiet, hstate, List.append_nil]
      exact h.first hnobody hcfg hall
  | start hcfg hoff htrusted hinit harrive hcovers hconnects =>
      rw [List.append_nil]
      exact h.join hdistinct hcfg hoff
        (h.ready hdistinct hsize hlen hcfg hoff htrusted hinit harrive hcovers) hconnects
  | @leave host n moments hn =>
      obtain ⟨hclient, hleft⟩ := disconnect_spec (E := E) moments
        { net := Function.update w.net host none, client := n }
      rw [hclient, List.append_nil]
      exact h.stop hdistinct hn hleft
  | @vanish host n hn =>
      rw [List.append_nil]
      exact h.stop hdistinct hn
        (Moved.refl (R := fun _ => Left n.config.me) (fun _ m => Left.refl n.config.me m) _)
  | send hsender hrecipient htime =>
      exact h.send laws session compact hdistinct hkeys hsender hrecipient htime hS

/-- Whoever starts, leaves or vanishes, and whatever is sent between: those that run hold one chain,
which is the old one with the blocks that were made. -/
theorem online_nodes_agree (laws : E.crypto.SignatureLaws) (session : E.crypto.SessionLaws)
    (compact : E.crypto.CompactLaws)
    (hdistinct : (parties.map fun c => c.me.toUserHost).Nodup)
    (hkeys : ∀ cfg ∈ parties, cfg.KeyPairMatches E) (hsize : parties.length + 12 < 2 ^ 32)
    (h : Inv E parties chain w) (hrun : Run E parties w made w')
    (hlen : (chain ++ made).length + 4 < 2 ^ 32)
    (hS : E.CollisionFree (Block.canonicals (chain ++ made))) :
    Inv E parties (chain ++ made) w' := by
  induction hrun with
  | refl => rwa [List.append_nil]
  | @tail w' w'' made more hrun hstep ih =>
      rw [← List.append_assoc] at hlen hS ⊢
      have hbefore : (chain ++ made).length + 4 < 2 ^ 32 := by
        rw [List.length_append] at hlen
        omega
      have hfree : E.CollisionFree (Block.canonicals (chain ++ made)) :=
        hS.mono (Block.canonicals_mono fun b hb => List.mem_append_left _ hb)
      exact (ih hbefore hfree).step laws session compact hdistinct hkeys hsize hstep hbefore hS

end Runs

/-! ## Two parties that start -/

namespace Pair

open SmallNet (members)

/-- Nobody runs, and there are no blocks. -/
def nobody : World where
  net _ := none
  stopped host := if host = FirstBlock.config.me.toUserHost
    then SmallNet.node FirstBlock.config [] Table.empty
    else SmallNet.node FirstBlock.rivalConfig [] Table.empty

def moments (_ : UserPeer) : Moment := Startup.moment

def trusting (hosts : List UserHost) : Startup.Outside where
  hosts := hosts.map fun host => (host, Startup.moment)
  peerMoments _ := Startup.moment
  blockMoments _ := Startup.moment

/-- The first party runs. -/
def alone : World := nobody.join
  (connectToAllPeers testEnv moments (nobody.starting FirstBlock.config))

/-- What the other one finds when it trusts the first. -/
def found : Option Startup.Result :=
  Startup.init testEnv (trusting [FirstBlock.config.me.toUserHost]) 8
    (alone.starting FirstBlock.rivalConfig)

theorem unbroken_empty : Unbroken (Table.empty : BlockTable) := ⟨rfl, rfl⟩

theorem inv_nobody : Inv testEnv members [] nobody where
  valid := ValidBlocks.nil
  online hn := by cases hn
  offline cfg hcfg _ := by
    rcases List.mem_pair.1 hcfg with rfl | rfl
    · exact ⟨rfl, List.prefix_rfl, unbroken_empty⟩
    · exact ⟨rfl, List.prefix_rfl, unbroken_empty⟩
  kept := ⟨FirstBlock.config, List.mem_cons_self .., Or.inr rfl⟩

/-- It runs too. -/
def reunited (result : Startup.Result) : World :=
  alone.join (connectToAllPeers testEnv moments result.state)

theorem step_alone : Step testEnv members nobody [] alone := by
  have hinit : Startup.init testEnv (trusting []) 8 (nobody.starting FirstBlock.config) =
      some { state := nobody.starting FirstBlock.config, peer := none, peerStarts := []
             calls := [] } := rfl
  refine Step.first moments (List.mem_cons_self ..) (fun _ => rfl) (fun c hc => ?_) hinit
  rcases List.mem_pair.1 hc with rfl | rfl <;> exact List.prefix_rfl

theorem found_spec : found.isSome = true ∧ ∀ r ∈ found,
    AllArrive testEnv (alone.starting FirstBlock.rivalConfig) r.calls ∧
      AllArrive testEnv r.state (connectCalls moments r.state.client) ∧ r.peerStarts = [0] ∧
      ∀ peer ∈ r.peer, ∀ n ∈ r.state.net peer.toUserHost, n.peers.length ≤ 12 := by
  decide +kernel

theorem step_reunited {result : Startup.Result} (hfound : found = some result) :
    Step testEnv members alone [] (reunited result) := by
  obtain ⟨hinit, hconnects, hstarts, hpeers⟩ := found_spec.2 result hfound
  refine Step.start (List.mem_cons_of_mem _ (List.mem_cons_self ..)) (by decide)
    ⟨_, List.mem_singleton_self _, by decide⟩ hfound hinit (fun peer hpeer n hn => ?_) hconnects
  rw [hstarts]
  exact fun i hi => ⟨0, List.mem_singleton_self _, Nat.zero_le _,
    hi.trans_le ((hpeers peer hpeer n hn).trans (by decide))⟩

/-- One party starts alone, the other one with its help, and then the first sends a text. -/
theorem online_nodes_agree_pair : ∃ result, found = some result ∧
    Inv testEnv members
      ([] ++ ((SmallNet.send [104, 105]).run testEnv (reunited result).net).2.block?.toList)
      { reunited result with
        net := ((SmallNet.send [104, 105]).run testEnv (reunited result).net).1 } := by
  obtain ⟨result, hfound⟩ := Option.isSome_iff_exists.1 found_spec.1
  refine ⟨result, hfound, ?_⟩
  have hrun : Run testEnv members nobody _ _ :=
    (((Run.refl nobody).tail step_alone).tail (step_reunited hfound)).tail
      (Step.send (s := SmallNet.send [104, 105]) (List.mem_cons_self ..)
        (List.mem_cons_of_mem _ (List.mem_cons_self ..)) (SmallNet.inTime_send _))
  have hsmall : ∀ block? : Option Block, block?.toList.length ≤ 1 ∧
      testEnv.CollisionFree (Block.canonicals block?.toList) := by
    intro block?
    cases block? with
    | none => exact ⟨Nat.zero_le _, by rintro x ⟨b, hb, -⟩; cases hb⟩
    | some block => exact ⟨le_rfl, Block.collisionFree_singleton testEnv block⟩
  obtain ⟨hlen, hfree⟩ := hsmall
    ((SmallNet.send [104, 105]).run testEnv (reunited result).net).2.block?
  refine online_nodes_agree XORCrypto.signatureLaws XORCrypto.sessionLaws XORCrypto.compactLaws
    SmallNet.distinct_members SmallNet.keyPairMatches_members (by decide) inv_nobody hrun ?_ ?_
  · simp only [List.nil_append]
    omega
  · exact hfree

end Pair

end Membership
end Network
end DChat
