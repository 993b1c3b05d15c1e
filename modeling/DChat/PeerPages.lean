import DChat.Discovery
import DChat.Exchange

/-!
# PeerPages — reading the peers of a node page by page

After its CONNECT a client asks the same node for its peers, `PEERS_BATCH_SIZE` at a time, until it
has asked for as many as there were when the CONNECT was answered.  Meanwhile the node serves
others, who join and leave, so what stands at a position changes from page to page.

When somebody leaves, everybody behind moves one place forward.  A peer at the very start of the
next page moves to a place that was already read, and is missed.
-/

namespace DChat
namespace Network
namespace PeerPages

open Utils Crypto Peer Messaging Blockchain BlockchainService Chat Discovery Paging TCPClient

/-! ## The exchange -/

/-- A request of another node. -/
structure Visitor where
  me : UserPeer
  request : PeerRequest
  sent : Tick
  visit : Visit

/-- The requests of others before a request of the client, and the clocks at this one. -/
structure Round where
  visitors : List Visitor
  sent : Tick
  visit : Visit

/-- The node that is asked and the node that asks. -/
structure Pair where
  server : Node
  client : Node

/-- The two after a request, and what `sendMessage` threw. -/
structure Asked extends Pair where
  thrown : Option Exn

variable (E : Env)

def serveVisitor (server : Node) (v : Visitor) : Node :=
  (TCPServer.serve E server v.visit (v.request.json v.me v.sent)).1

/-- The server after the visitors. -/
def visited (s : Pair) (round : Round) : Node := round.visitors.foldl (serveVisitor E) s.server

/-- The client's request after the visitors. -/
def send (s : Pair) (round : Round) (jMessage : Json) : Asked :=
  match sendMessage E (visited E s round) s.client round.visit jMessage with
  | .ok (server, client) => { server, client, thrown := none }
  | .error e => { server := visited E s round, client := s.client, thrown := some e }

/-- The JSON of the client's CONNECT. -/
def connectJson (s : Pair) (round : Round) (recipient : UserPeer) (lastHash : String) : Json :=
  (ConnectionMessage.create round.sent s.client.config.me recipient lastHash).serialize

/-- The JSON of a PEER_LIST request in the first loop of `init`. -/
def pageJson (s : Pair) (round : Round) (recipient : UserPeer) (start : UInt32) : Json :=
  (PeerListMessage.create round.sent s.client.config.me recipient start peersBatchSize).serialize

/-- `TCPClient::TCPClient` with one trusted host. -/
def connect (recipient : UserPeer) (lastHash : String) (round : Round) (s : Pair) : Asked :=
  send E s round (connectJson s round recipient lastHash)

/-- One round of the first loop of `init`; there is none after an exception. -/
def page (recipient : UserPeer) (rounds : UInt32 → Round) (s : Asked) (start : UInt32) : Asked :=
  if s.thrown.isSome then
    s
  else
    send E s.toPair (rounds start) (pageJson s.toPair (rounds start) recipient start)

/-! ## What may happen between two pages -/

/-- The request does not take `p` out of the list, and takes nothing out in front of it when `p`
is the first of the next page. -/
def Keeps (p : UserPeer) (start : UInt32) (server : Node) (v : Visitor) : Prop :=
  match v.request with
  | .disconnect _ => p ≠ v.me ∧
      (v.me ∈ server.peers.take start.toNat → server.peers[start.toNat]? ≠ some p)
  | _ => True

/-- The condition at every visitor. -/
def KeepsAll (p : UserPeer) (start : UInt32) (server : Node) : List Visitor → Prop
  | [] => True
  | v :: vs => Keeps p start server v ∧ KeepsAll p start (serveVisitor E server v) vs

/-- The conditions at every page. -/
def Undisturbed (p recipient : UserPeer) (rounds : UInt32 → Round) (s : Asked) :
    List UInt32 → Prop
  | [] => True
  | start :: starts =>
      KeepsAll E p start s.server (rounds start).visitors ∧
        Arrives E (visited E s.toPair (rounds start)) (rounds start).visit
          (pageJson s.toPair (rounds start) recipient start) ∧
        Undisturbed p recipient rounds (page E recipient rounds s start) starts

variable {E}

/-! ## One request -/

theorem serveVisitor_eq (server : Node) (v : Visitor) :
    serveVisitor E server v = ((v.request.decoded v.me v.sent).handle server v.visit.tick
      (v.request.json v.me v.sent)).1 := by
  rw [serveVisitor, PeerRequest.serve_json]

/-- A visitor that keeps the peer keeps it ahead. -/
theorem Keeps.ahead {p : UserPeer} {start : UInt32} {server : Node} {v : Visitor}
    (hkeeps : Keeps p start server v) {count : Nat} (h : Ahead server.peers start.toNat count p) :
    Ahead (serveVisitor E server v).peers start.toNat count p := by
  rcases v with ⟨me, request, sent, visit⟩
  rw [serveVisitor_eq]
  cases request with
  | connect recipient lastHash =>
      show Ahead (PeerService.addPeer server.peers me) start.toNat count p
      by_cases hme : me ∈ server.peers
      · simpa [PeerService.addPeer, hme] using h
      · simpa [PeerService.addPeer, hme] using h.append me
  | disconnect recipient =>
      rcases hkeeps with ⟨hother, hfront⟩
      exact h.erase hother hfront
  | peerList recipient first count => exact h

theorem KeepsAll.ahead {p : UserPeer} {start : UInt32} {server : Node} {visitors : List Visitor}
    (hkeeps : KeepsAll E p start server visitors) {count : Nat}
    (h : Ahead server.peers start.toNat count p) :
    Ahead (visitors.foldl (serveVisitor E) server).peers start.toNat count p := by
  induction visitors generalizing server with
  | nil => exact h
  | cons v vs ih => exact ih hkeeps.2 (hkeeps.1.ahead h)

theorem mem_addPeers {peers new : List UserPeer} {p : UserPeer} (h : p ∈ peers ∨ p ∈ new) :
    p ∈ new.foldl PeerService.addPeer peers := by
  induction new generalizing peers with
  | nil => simpa using h
  | cons q qs ih =>
      apply ih
      rcases h with hold | hnew
      · exact Or.inl (PeerService.mem_addPeer.2 (Or.inl hold))
      · rcases List.mem_cons.1 hnew with rfl | hrest
        · exact Or.inl (PeerService.mem_addPeer.2 (Or.inr rfl))
        · exact Or.inr hrest

theorem toNat_next {start : UInt32} (hroom : start.toNat + 12 < 2 ^ 32) :
    (start + peersBatchSize).toNat = start.toNat + 12 := by
  rw [UInt32.toNat_add]
  exact Nat.mod_eq_of_lt hroom

/-- The answer to a PEER_LIST request and what the client makes of it. -/
theorem page_spec {s : Asked} {recipient : UserPeer} {rounds : UInt32 → Round} {start : UInt32}
    (hrunning : s.thrown = none)
    (harrives : Arrives E (visited E s.toPair (rounds start)) (rounds start).visit
      (pageJson s.toPair (rounds start) recipient start))
    (hroom : start.toNat + 12 < 2 ^ 32) :
    (page E recipient rounds s start).thrown = none ∧
      (page E recipient rounds s start).server = visited E s.toPair (rounds start) ∧
      (page E recipient rounds s start).client.config = s.client.config ∧
      ∀ p, p ∈ s.client.peers ∨
          (p ∈ Paging.page 12 (visited E s.toPair (rounds start)).peers start.toNat ∧
            p ≠ s.client.config.me) →
        p ∈ (page E recipient rounds s start).client.peers := by
  rw [page, hrunning, Option.isSome_none, if_neg Bool.false_ne_true]
  simp only [send, pageJson, sendMessage_peerList harrives]
  refine ⟨trivial, trivial, trivial, ?_⟩
  intro p hp
  apply mem_addPeers
  refine hp.imp_right ?_
  rintro ⟨hmem, hother⟩
  refine List.mem_filter.2 ⟨?_, by simpa using hother⟩
  rw [toNat_next hroom, List.drop_take, Nat.add_sub_cancel_left]
  exact hmem

/-! ## All pages -/

theorem undisturbed_cons {p recipient : UserPeer} {rounds : UInt32 → Round} {s : Asked}
    {start : UInt32} {starts : List UInt32} (hquiet : (rounds start).visitors = []) :
    Undisturbed E p recipient rounds s (start :: starts) ↔
      Arrives E (visited E s.toPair (rounds start)) (rounds start).visit
          (pageJson s.toPair (rounds start) recipient start) ∧
        Undisturbed E p recipient rounds (page E recipient rounds s start) starts := by
  simp [Undisturbed, hquiet, KeepsAll]

/-- The peer was shown, or a later page will show it. -/
theorem mem_of_pages {recipient p : UserPeer} {rounds : UInt32 → Round} {count : UInt32}
    (hcount : count.toNat + 12 < 2 ^ 32) {fuel : Nat} {s : Asked} {start : UInt32}
    {starts : List UInt32} (hstarts : requestStarts peersBatchSize count fuel start = some starts)
    (hrunning : s.thrown = none)
    (hcalm : Undisturbed E p recipient rounds s starts) (hother : p ≠ s.client.config.me)
    (h : p ∈ s.client.peers ∨ Ahead s.server.peers start.toNat count.toNat p) :
    p ∈ (starts.foldl (page E recipient rounds) s).client.peers := by
  induction fuel generalizing s start starts with
  | zero => cases hstarts
  | succ fuel ih =>
      rw [requestStarts] at hstarts
      by_cases hmore : start < count
      · rw [if_pos hmore] at hstarts
        rcases Option.map_eq_some_iff.1 hstarts with ⟨rest, hrest, rfl⟩
        rcases hcalm with ⟨hkeeps, harrives, hcalm⟩
        have hlt : start.toNat < count.toNat := UInt32.lt_iff_toNat_lt.1 hmore
        have hroom : start.toNat + 12 < 2 ^ 32 := by omega
        rcases page_spec hrunning harrives hroom with ⟨hrunning', hserver, hclient, hpeers⟩
        have hother' : p ≠ (page E recipient rounds s start).client.config.me := by
          rw [hclient]
          exact hother
        rw [List.foldl_cons]
        refine ih hrest hrunning' hcalm hother' ?_
        rw [toNat_next hroom, hserver]
        rcases h with hshown | hahead
        · exact Or.inl (hpeers p (Or.inl hshown))
        · rcases (hkeeps.ahead hahead).page (k := 12) with hpage | hlater
          · exact Or.inl (hpeers p (Or.inr ⟨hpage, hother⟩))
          · exact Or.inr hlater
      · rw [if_neg hmore, Option.some_inj] at hstarts
        subst hstarts
        -- nothing is ahead at the end of the loop
        have hend : count.toNat ≤ start.toNat := Nat.le_of_not_lt fun hlt =>
          hmore (UInt32.lt_iff_toNat_lt.2 hlt)
        exact h.resolve_right (not_ahead hend)

/-- Both ends after the CONNECT. -/
theorem connect_spec {s : Pair} {recipient : UserPeer} {lastHash : String} {round : Round}
    (harrives :
      Arrives E (visited E s round) round.visit (connectJson s round recipient lastHash)) :
    (connect E recipient lastHash round s).thrown = none ∧
      (connect E recipient lastHash round s).client.config = s.client.config ∧
      (connect E recipient lastHash round s).client.peersToReceive =
        UInt32.ofNat (connect E recipient lastHash round s).server.peers.length := by
  simp only [connect, send, connectJson, sendMessage_connect harrives]
  exact ⟨trivial, trivial, trivial⟩

theorem pages_miss_nobody {c : Asked} {me recipient : UserPeer} (rounds : UInt32 → Round)
    (hrunning : c.thrown = none) (hme : c.client.config.me = me)
    (hcount : c.client.peersToReceive = UInt32.ofNat c.server.peers.length)
    (hsize : c.server.peers.length + 12 < 2 ^ 32) :
    ∃ starts, (∀ fuel, c.client.peersToReceive.toNat < fuel →
        requestStarts peersBatchSize c.client.peersToReceive fuel 0 = some starts) ∧
      ∀ p ∈ c.server.peers, p ≠ me → Undisturbed E p recipient rounds c starts →
        p ∈ (starts.foldl (page E recipient rounds) c).client.peers := by
  have hlen : c.client.peersToReceive.toNat = c.server.peers.length := by
    rw [hcount, UInt32.toNat_ofNat']
    exact Nat.mod_eq_of_lt (by omega)
  have hroom : c.client.peersToReceive.toNat + peersBatchSize.toNat < 2 ^ 32 := by
    rw [hlen]
    exact hsize
  have hbatch : 0 < peersBatchSize.toNat := by decide
  refine ⟨_, fun fuel => requestStarts_pages hbatch hroom, ?_⟩
  intro p hp hother hcalm
  have hahead : Ahead c.server.peers 0 c.client.peersToReceive.toNat p :=
    ahead_zero hp (Nat.le_of_eq hlen.symm)
  exact mem_of_pages hroom (requestStarts_pages hbatch hroom (Nat.lt_succ_self _)) hrunning hcalm
    (hme ▸ hother) (Or.inr hahead)

/-- After a CONNECT the loop over the pages ends, and every peer that was in the list of the node
and stays, without standing at the start of the next page when somebody in front of it leaves, is
in the list of the client. -/
theorem discovery_misses_nobody {s : Pair} {recipient : UserPeer} {lastHash : String}
    {first : Round}
    (harrives : Arrives E (visited E s first) first.visit (connectJson s first recipient lastHash))
    (rounds : UInt32 → Round)
    (hsize : (connect E recipient lastHash first s).server.peers.length + 12 < 2 ^ 32) :
    let c := connect E recipient lastHash first s
    ∃ starts, (∀ fuel, c.client.peersToReceive.toNat < fuel →
        requestStarts peersBatchSize c.client.peersToReceive fuel 0 = some starts) ∧
      ∀ p ∈ c.server.peers, p ≠ s.client.config.me → Undisturbed E p recipient rounds c starts →
        p ∈ (starts.foldl (page E recipient rounds) c).client.peers := by
  rcases connect_spec harrives with ⟨hrunning, hme, hcount⟩
  exact pages_miss_nobody rounds hrunning (congrArg Config.me hme) hcount hsize

/-! ## Fourteen peers -/

/-- Thirteen peers at one host. -/
def crowd : List UserPeer :=
  (List.range 13).map fun i => { host := "10.0.0.3", port := UInt16.ofNat i, publicKey := "k" }

def last : UserPeer := { host := "10.0.0.3", port := 12, publicKey := "k" }

/-- A node that knows them, and one that has just started. -/
def hub : Pair where
  server := SmallNet.node
    { host := "10.0.0.1", port := 8001, publicKey := "x", privateKey := "" } crowd
    KeyedTable.Table.empty
  client := SmallNet.node
    { host := "10.0.0.2", port := 8002, publicKey := "z", privateKey := "" } []
    KeyedTable.Table.empty

def quiet : Round := { visitors := [], sent := clock, visit := SmallNet.visit }

/-- Before the second page the first of the thirteen leaves. -/
def leaving (start : UInt32) : Round :=
  if start = 12 then
    { quiet with visitors := [⟨{ host := "10.0.0.3", port := 0, publicKey := "k" },
        (.disconnect hub.server.config.me), clock, SmallNet.visit⟩] }
  else
    quiet

def connected : Asked := connect testEnv hub.server.config.me "0" quiet hub

theorem requestStarts_hub :
    requestStarts peersBatchSize connected.client.peersToReceive 15 0 = some [0, 12] := by
  decide +kernel

theorem discovery_misses_nobody_hub :
    last ∈ ([0, 12].foldl (page testEnv hub.server.config.me fun _ => quiet)
      connected).client.peers := by
  have harrives : Arrives testEnv (visited testEnv hub quiet) quiet.visit
      (connectJson hub quiet hub.server.config.me "0") := by
    decide +kernel
  rcases discovery_misses_nobody harrives (fun _ => quiet) (by decide +kernel) with
    ⟨starts, hstarts, hall⟩
  have hpages : starts = [0, 12] :=
    Option.some.inj ((hstarts 15 (by decide +kernel)).symm.trans requestStarts_hub)
  subst hpages
  have hother : last ≠ hub.client.config.me := by decide
  have hmem : last ∈ connected.server.peers := by decide +kernel
  apply hall last hmem hother
  rw [undisturbed_cons rfl, undisturbed_cons rfl]
  refine ⟨?_, ?_, trivial⟩
  · decide +kernel
  · decide +kernel

/-- The thirteenth peer moves to the place of the twelfth, which was already read. -/
theorem last_peer_missed :
    requestStarts peersBatchSize connected.client.peersToReceive 15 0 = some [0, 12] ∧
      let s := [0, 12].foldl (page testEnv hub.server.config.me leaving) connected
      last ∈ connected.server.peers ∧ last ∈ s.server.peers ∧ last ≠ s.client.config.me ∧
        last ∉ s.client.peers := by
  refine ⟨requestStarts_hub, ?_⟩
  decide +kernel

end PeerPages
end Network
end DChat
