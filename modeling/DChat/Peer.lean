import DChat.Json
import DChat.Library.KeyedTable
import DChat.Library.Fallible

/-!
# Peer — addresses, peers, the active list and the table of chat peers

`PeerService` keeps the active peers in memory, in order of arrival and without equal triples.
`PeerDB` keeps the peers a node has chatted with, one row for each public key.
-/

namespace DChat
namespace Peer

open Utils KeyedTable Fallible

/-- `peer::UserHost`. -/
structure UserHost where
  host : String
  port : UInt16
  deriving DecidableEq, Repr

/-- The order in which the compiler evaluates the arguments host and port of a constructor.  C++
leaves it open. -/
inductive ArgumentOrder
  | hostFirst
  | portFirst
  deriving DecidableEq, Repr

/-- `peer::UserPeer`. -/
structure UserPeer extends UserHost where
  publicKey : String
  deriving DecidableEq, Repr

namespace UserPeer

/-- `UserPeer()`. -/
def default : UserPeer := { host := "", port := 0, publicKey := "" }

/-- The base that `UserPeer(const json&)` constructs from two arguments. -/
def hostOfJson (jData : Json) : ArgumentOrder → Except Exn UserHost
  | .hostFirst => do
      let host ← (← jData.field "host").getString
      let port ← (← jData.field "port").getUInt16
      return { host, port }
  | .portFirst => do
      let port ← (← jData.field "port").getUInt16
      let host ← (← jData.field "host").getString
      return { host, port }

/-- `UserPeer::UserPeer(const json&)`.  `g++` evaluates the port first. -/
def ofJson (jData : Json) (order : ArgumentOrder := .portFirst) : Except Exn UserPeer := do
  let base ← hostOfJson jData order
  let publicKey ← (← jData.field "public_key").getString
  return { toUserHost := base, publicKey }

/-- `UserPeer::toJson`. -/
def toJson (p : UserPeer) : Json :=
  .object [("port", .unsigned p.port.toUInt64), ("host", .string p.host),
    ("public_key", .string p.publicKey)]

@[simp] theorem ofJson_toJson (p : UserPeer) (order : ArgumentOrder) :
    ofJson p.toJson order = .ok p := by
  cases order <;>
    simp [ofJson, hostOfJson, toJson, Json.field, List.lookup_cons, bind, Except.bind, pure,
      Except.pure]

/-- The two fields of the base, whichever was read first. -/
theorem fields_of_hostOfJson {j : Json} {order : ArgumentOrder} {h : UserHost}
    (hread : hostOfJson j order = .ok h) :
    j.field "host" = .ok (.string h.host) ∧
      ∃ w, j.field "port" = .ok w ∧ w.getUInt16 = .ok h.port := by
  cases order with
  | hostFirst =>
      rcases bind_eq_ok.1 hread with ⟨wHost, hHost, hread⟩
      rcases bind_eq_ok.1 hread with ⟨host, hhost, hread⟩
      rcases bind_eq_ok.1 hread with ⟨wPort, hPort, hread⟩
      rcases bind_pure_eq_ok.1 hread with ⟨port, hport, rfl⟩
      rw [Json.getString_eq_ok] at hhost
      exact ⟨hhost ▸ hHost, wPort, hPort, hport⟩
  | portFirst =>
      rcases bind_eq_ok.1 hread with ⟨wPort, hPort, hread⟩
      rcases bind_eq_ok.1 hread with ⟨port, hport, hread⟩
      rcases bind_eq_ok.1 hread with ⟨wHost, hHost, hread⟩
      rcases bind_pure_eq_ok.1 hread with ⟨host, hhost, rfl⟩
      rw [Json.getString_eq_ok] at hhost
      exact ⟨hhost ▸ hHost, wPort, hPort, hport⟩

/-- The fields a peer was read from. -/
theorem fields_of_ofJson {j : Json} {order : ArgumentOrder} {p : UserPeer}
    (h : ofJson j order = .ok p) :
    j.field "host" = .ok (.string p.host) ∧
      (∃ w, j.field "port" = .ok w ∧ w.getUInt16 = .ok p.port) ∧
      j.field "public_key" = .ok (.string p.publicKey) := by
  rcases bind_eq_ok.1 h with ⟨base, hbase, h⟩
  rcases bind_eq_ok.1 h with ⟨wKey, hKey, h⟩
  rcases bind_pure_eq_ok.1 h with ⟨publicKey, hkey, rfl⟩
  rw [Json.getString_eq_ok] at hkey
  rcases fields_of_hostOfJson hbase with ⟨hhost, hport⟩
  exact ⟨hhost, hport, hkey ▸ hKey⟩

end UserPeer

/-! ## The active peers -/

namespace PeerService

/-- `PeerService::findPeer`. -/
def findPeer (peers : List UserPeer) (host : UserHost) : Except Exn UserPeer :=
  match peers.find? fun p => p.host = host.host ∧ p.port = host.port with
  | some p => .ok p
  | none => .error (.std "Peer not found")

/-- `PeerService::addPeer`. -/
def addPeer (peers : List UserPeer) (p : UserPeer) : List UserPeer :=
  if p ∈ peers then peers else peers ++ [p]

/-- `PeerService::removePeer`. -/
def removePeer (peers : List UserPeer) (p : UserPeer) : List UserPeer := peers.erase p

theorem addPeer_addPeer (peers : List UserPeer) (p : UserPeer) :
    addPeer (addPeer peers p) p = addPeer peers p := by
  by_cases h : p ∈ peers <;> simp [addPeer, h]

theorem mem_addPeer {peers : List UserPeer} {p q : UserPeer} :
    q ∈ addPeer peers p ↔ q ∈ peers ∨ q = p := by
  by_cases hp : p ∈ peers
  · rw [addPeer, if_pos hp]
    exact ⟨Or.inl, fun h => h.elim id fun heq => heq ▸ hp⟩
  · simp [addPeer, hp]

theorem nodup_addPeer {peers : List UserPeer} (h : peers.Nodup) (p : UserPeer) :
    (addPeer peers p).Nodup := by
  by_cases hp : p ∈ peers
  · rw [addPeer, if_pos hp]
    exact h
  · rw [addPeer, if_neg hp, ← List.concat_eq_append]
    exact h.concat hp

theorem mem_foldl_addPeer {peers new : List UserPeer} {q : UserPeer} :
    q ∈ new.foldl addPeer peers ↔ q ∈ peers ∨ q ∈ new := by
  induction new generalizing peers with
  | nil => simp
  | cons p new ih => rw [List.foldl_cons, ih, mem_addPeer, List.mem_cons, or_assoc]

theorem nodup_foldl_addPeer {peers : List UserPeer} (h : peers.Nodup) (new : List UserPeer) :
    (new.foldl addPeer peers).Nodup := by
  induction new generalizing peers with
  | nil => exact h
  | cons p new ih => exact ih (nodup_addPeer h p)

end PeerService

/-! ## The table of chat peers -/

/-- A row of `peers`. -/
structure PeerRow where
  host : DbText
  port : UInt16
  publicKey : DbText
  deriving DecidableEq, Repr

/-- The `peers` table: `public_key TEXT NOT NULL UNIQUE`. -/
abbrev PeerTable := Table PeerRow.publicKey

namespace PeerDB

def addPeer (t : PeerTable) (p : UserPeer) : PeerTable :=
  if t.data.any fun r => r.publicKey = .bind p.publicKey then
    t
  else
    (t.insert { host := .bind p.host, port := p.port, publicKey := .bind p.publicKey }).1

/-- An empty key counts as not found. -/
def findPublicKeyByUserHost (t : PeerTable) (host : UserHost) : Option String :=
  match t.data.find? fun r => r.host = .bind host.host ∧ r.port = host.port with
  | some r => if r.publicKey.text = "" then none else some r.publicKey.text
  | none => none

end PeerDB

end Peer
end DChat
