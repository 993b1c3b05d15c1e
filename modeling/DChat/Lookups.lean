import DChat.Peer

/-!
# Lookups — the key that an address stands for

A peer may come back with another key, or under another address.  `PeerService` keeps both triples,
and a lookup by address takes the first one.  `PeerDB` keeps one row for each key and never changes
it, so the row of a peer stays at its first address.
-/

namespace DChat
namespace Peer
namespace Lookups

open Utils KeyedTable

/-- The calls that announce a peer and take it back. -/
inductive Call
  | addPeer (p : UserPeer)
  | removePeer (p : UserPeer)
  | addChatPeer (p : UserPeer)

/-- The active peers and the table of chat peers. -/
structure State where
  peers : List UserPeer
  chatPeers : PeerTable

def State.empty : State := { peers := [], chatPeers := Table.empty }

def step (s : State) : Call → State
  | .addPeer p => { s with peers := PeerService.addPeer s.peers p }
  | .removePeer p => { s with peers := PeerService.removePeer s.peers p }
  | .addChatPeer p => { s with chatPeers := PeerDB.addPeer s.chatPeers p }

def run (calls : List Call) : State := calls.foldl step State.empty

/-- The active peers at an address. -/
def peersAt (peers : List UserPeer) (host : UserHost) : List UserPeer :=
  peers.filter fun p => p.host = host.host ∧ p.port = host.port

/-- The rows of the table at an address. -/
def rowsAt (t : PeerTable) (host : UserHost) : List PeerRow :=
  t.data.filter fun r => r.host = .bind host.host ∧ r.port = host.port

/-- What the lookups answer after a call, when they are right: the key that was announced, from the
only active peer at the address. -/
def Current (s : State) : Call → Prop
  | .addPeer p =>
      (∃ q, PeerService.findPeer s.peers p.toUserHost = .ok q ∧ q.publicKey = p.publicKey) ∧
        (peersAt s.peers p.toUserHost).length = 1
  | .removePeer _ => True
  | .addChatPeer p =>
      PeerDB.findPublicKeyByUserHost s.chatPeers p.toUserHost = some p.publicKey

/-- The key can be stored and looked up, the oldest row at the address is the one of the key, and
a key that has a row does not come from an address without one. -/
structure ChatSettled (t : PeerTable) (p : UserPeer) : Prop where
  nonempty : p.publicKey ≠ ""
  noNul : NoNul p.publicKey
  oldest : ∀ r ∈ (rowsAt t p.toUserHost).head?, r.publicKey = .bind p.publicKey
  unmoved : rowsAt t p.toUserHost = [] → ∀ r ∈ t.data, r.publicKey ≠ .bind p.publicKey

/-- The announcement gives an address no second key, and a key no second address. -/
def Settled (s : State) : Call → Prop
  | .addPeer p => ∀ q ∈ peersAt s.peers p.toUserHost, q.publicKey = p.publicKey
  | .removePeer _ => True
  | .addChatPeer p => ChatSettled s.chatPeers p

/-- The lookups are right after each call. -/
def AlwaysCurrent (calls : List Call) : Prop :=
  ∀ earlier call, earlier ++ [call] <+: calls → Current (run (earlier ++ [call])) call

/-- Each announcement is settled when it is made. -/
def AlwaysSettled (calls : List Call) : Prop :=
  ∀ earlier call, earlier ++ [call] <+: calls → Settled (run earlier) call

/-! ## The active peers -/

theorem run_concat (calls : List Call) (call : Call) :
    run (calls ++ [call]) = step (run calls) call := by
  rw [run, List.foldl_append, List.foldl_cons, List.foldl_nil, run]

/-- No triple is twice in the list, in no state that is reached. -/
theorem nodup_run (calls : List Call) : (run calls).peers.Nodup := by
  induction calls using List.reverseRecOn with
  | nil => exact List.nodup_nil
  | append_singleton calls call ih =>
      rw [run_concat]
      cases call with
      | addPeer p => exact PeerService.nodup_addPeer ih p
      | removePeer p => exact ih.erase p
      | addChatPeer p => exact ih

theorem mem_peersAt {peers : List UserPeer} {p q : UserPeer} :
    q ∈ peersAt peers p.toUserHost ↔ q ∈ peers ∧ q.toUserHost = p.toUserHost := by
  rcases q with ⟨⟨host, port⟩, publicKey⟩
  rcases p with ⟨⟨host', port'⟩, publicKey'⟩
  simp [peersAt]

/-- A lookup finds the oldest peer at the address. -/
theorem findPeer_eq_ok {peers : List UserPeer} {host : UserHost} {q : UserPeer} :
    PeerService.findPeer peers host = .ok q ↔ (peersAt peers host).head? = some q := by
  rw [peersAt, List.head?_filter, PeerService.findPeer]
  cases peers.find? fun p => p.host = host.host ∧ p.port = host.port <;> simp

theorem eq_of_address {p q : UserPeer} (hhost : q.toUserHost = p.toUserHost)
    (hkey : q.publicKey = p.publicKey) : q = p := by
  rcases p with ⟨host, publicKey⟩
  rcases q with ⟨host', publicKey'⟩
  cases hhost
  cases hkey
  rfl

/-- The announced peer is the only one at its address if and only if it was before. -/
theorem current_addPeer_iff {s : State} (hnodup : s.peers.Nodup) (p : UserPeer) :
    Current (step s (.addPeer p)) (.addPeer p) ↔ Settled s (.addPeer p) := by
  have hmem : p ∈ peersAt (PeerService.addPeer s.peers p) p.toUserHost :=
    mem_peersAt.2 ⟨PeerService.mem_addPeer.2 (Or.inr rfl), rfl⟩
  constructor
  · -- an older entry at the same address would be counted beside the new one
    rintro ⟨_, hone⟩ q hq
    rcases List.length_eq_one_iff.1 hone with ⟨only, honly⟩
    rcases mem_peersAt.1 hq with ⟨hold, hhost⟩
    have hq' : q ∈ peersAt (PeerService.addPeer s.peers p) p.toUserHost :=
      mem_peersAt.2 ⟨PeerService.mem_addPeer.2 (Or.inl hold), hhost⟩
    change peersAt (PeerService.addPeer s.peers p) p.toUserHost = [only] at honly
    rw [honly, List.mem_singleton] at hmem hq'
    rw [hq', hmem]
  · intro hsettled
    have hall : ∀ q ∈ peersAt (PeerService.addPeer s.peers p) p.toUserHost, q = p := by
      intro q hq
      rcases mem_peersAt.1 hq with ⟨hadded, hhost⟩
      rcases PeerService.mem_addPeer.1 hadded with hold | rfl
      · exact eq_of_address hhost (hsettled q (mem_peersAt.2 ⟨hold, hhost⟩))
      · rfl
    -- the list has no duplicates, so the new peer is its only entry there
    have honce : (peersAt (PeerService.addPeer s.peers p) p.toUserHost).count p = 1 :=
      List.count_eq_one_of_mem ((PeerService.nodup_addPeer hnodup p).filter _) hmem
    rw [List.count_eq_length.2 fun q hq => (hall q hq).symm] at honce
    rcases List.length_eq_one_iff.1 honce with ⟨only, honly⟩
    refine ⟨⟨p, findPeer_eq_ok.2 ?_, rfl⟩, honce⟩
    change (peersAt (PeerService.addPeer s.peers p) p.toUserHost).head? = some p
    rw [honly, List.mem_singleton] at hmem
    rw [honly, hmem, List.head?_cons]

/-! ## The table of chat peers -/

theorem text_eq_iff {a : DbText} {key : String} :
    a.text = key ↔ NoNul key ∧ a = .bind key := by
  constructor
  · rintro rfl
    exact ⟨a.noNul, DbText.eq_bind_iff.2 (cString_of_noNul a.noNul).symm⟩
  · rintro ⟨hnul, rfl⟩
    exact cString_of_noNul hnul

/-- A lookup finds the key of the oldest row at the address. -/
theorem findPublicKeyByUserHost_eq_some {t : PeerTable} {host : UserHost} {key : String} :
    PeerDB.findPublicKeyByUserHost t host = some key ↔
      key ≠ "" ∧ NoNul key ∧ ∃ r, (rowsAt t host).head? = some r ∧ r.publicKey = .bind key := by
  rw [rowsAt, List.head?_filter, PeerDB.findPublicKeyByUserHost]
  cases t.data.find? fun r => r.host = .bind host.host ∧ r.port = host.port with
  | none => simp
  | some r =>
      have hkey : r.publicKey.text = key ↔ NoNul key ∧ r.publicKey = .bind key := text_eq_iff
      by_cases hempty : r.publicKey.text = ""
      · simp only [hempty, if_true, reduceCtorEq, false_iff]
        rintro ⟨hne, hnul, found, hfound, hbind⟩
        cases hfound
        exact hne ((hkey.2 ⟨hnul, hbind⟩).symm.trans hempty)
      · simp only [hempty, if_false, Option.some.injEq, exists_eq_left']
        constructor
        · rintro rfl
          exact ⟨hempty, hkey.1 rfl⟩
        · rintro ⟨_, hstored⟩
          exact hkey.2 hstored

/-- A peer whose key has no row gets one, behind the others. -/
theorem rowsAt_addPeer {t : PeerTable} {p : UserPeer}
    (hnew : ∀ r ∈ t.data, r.publicKey ≠ .bind p.publicKey) :
    rowsAt (PeerDB.addPeer t p) p.toUserHost = rowsAt t p.toUserHost ++
      [{ host := .bind p.host, port := p.port, publicKey := .bind p.publicKey }] := by
  have hnone : ¬ (t.data.any fun r => r.publicKey = .bind p.publicKey) = true := by
    simpa using hnew
  have hfresh : t.Fresh { host := .bind p.host, port := p.port, publicKey := .bind p.publicKey } :=
    hnew
  rw [PeerDB.addPeer, if_neg hnone, rowsAt, Table.data_insert_of_fresh hfresh, List.filter_append,
    rowsAt]
  simp

/-- The key is found if and only if its row is the oldest at the address, or becomes the first. -/
theorem current_addChatPeer_iff (s : State) (p : UserPeer) :
    Current (step s (.addChatPeer p)) (.addChatPeer p) ↔ Settled s (.addChatPeer p) := by
  show PeerDB.findPublicKeyByUserHost (PeerDB.addPeer s.chatPeers p) p.toUserHost =
    some p.publicKey ↔ ChatSettled s.chatPeers p
  rw [findPublicKeyByUserHost_eq_some]
  by_cases hnew : ∀ r ∈ s.chatPeers.data, r.publicKey ≠ .bind p.publicKey
  · rw [rowsAt_addPeer hnew]
    cases hrows : rowsAt s.chatPeers p.toUserHost with
    | nil =>
        constructor
        · rintro ⟨hne, hnul, _⟩
          exact ⟨hne, hnul, by simp [hrows], fun _ => hnew⟩
        · intro h
          exact ⟨h.nonempty, h.noNul, _, rfl, rfl⟩
    | cons r rs =>
        -- an older row hides the new one, and it has another key
        have hother : r.publicKey ≠ .bind p.publicKey :=
          hnew r (List.mem_of_mem_filter (hrows ▸ List.mem_cons_self))
        constructor
        · rintro ⟨_, _, found, hfound, hkey⟩
          exact absurd (Option.some.inj hfound ▸ hkey) hother
        · intro h
          exact absurd (h.oldest r (by rw [hrows]; rfl)) hother
  · have hsame : PeerDB.addPeer s.chatPeers p = s.chatPeers := by
      rw [PeerDB.addPeer, if_pos]
      simpa using hnew
    rw [hsame]
    cases hrows : rowsAt s.chatPeers p.toUserHost with
    | nil =>
        constructor
        · rintro ⟨_, _, _, hfound, _⟩
          cases hfound
        · intro h
          exact absurd (h.unmoved hrows) hnew
    | cons r rs =>
        constructor
        · rintro ⟨hne, hnul, found, hfound, hkey⟩
          refine ⟨hne, hnul, ?_, by simp [hrows]⟩
          intro x hx
          rw [hrows, hfound] at hx
          cases hx
          exact hkey
        · intro h
          exact ⟨h.nonempty, h.noNul, r, rfl, h.oldest r (by rw [hrows]; rfl)⟩

/-- After each call of a run the lookups are right if and only if its announcement was settled. -/
theorem current_iff (earlier : List Call) (call : Call) :
    Current (run (earlier ++ [call])) call ↔ Settled (run earlier) call := by
  rw [run_concat]
  cases call with
  | addPeer p => exact current_addPeer_iff (nodup_run earlier) p
  | removePeer p => exact Iff.rfl
  | addChatPeer p => exact current_addChatPeer_iff (run earlier) p

/-- Along a run the lookups are always right if and only if the announcements are always settled. -/
theorem lookups_current_iff (calls : List Call) : AlwaysCurrent calls ↔ AlwaysSettled calls :=
  forall_congr' fun earlier => forall_congr' fun call => imp_congr_right fun _ =>
    current_iff earlier call

/-- A peer comes back with another key. -/
def rekeyed : List Call :=
  [.addPeer { host := "127.0.0.1", port := 8006, publicKey := "old" },
    .addPeer { host := "127.0.0.1", port := 8006, publicKey := "new" },
    .addChatPeer { host := "127.0.0.1", port := 8006, publicKey := "old" },
    .addChatPeer { host := "127.0.0.1", port := 8006, publicKey := "new" }]

theorem old_key_found : ¬ AlwaysCurrent rekeyed := by
  intro h
  have hlast : PeerDB.findPublicKeyByUserHost (run rekeyed).chatPeers
      { host := "127.0.0.1", port := 8006 } = some "new" :=
    h (rekeyed.take 3) (.addChatPeer { host := "127.0.0.1", port := 8006, publicKey := "new" })
      (List.prefix_refl rekeyed)
  revert hlast
  decide

end Lookups
end Peer
end DChat
