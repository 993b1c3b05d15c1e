import DChat.Access
import DChat.ChatApplication

/-!
# Numbers — the numbers that come from outside

Ports, positions and counts are read out of JSON values, out of commands and out of the list of
trusted peers.  Each reader casts what it reads to the 16 or 32 bits of its variable and checks
nothing.  So a number is kept if it fits, and is another number if it does not.

The integer that is written in an input may be missing: a boolean, a fraction or a text with
something behind the digits is read as a number too.
-/

namespace DChat

open Utils Crypto Peer Messaging Fallible

namespace Json

/-- The integer that a value is. -/
def integer? : Json → Option Int
  | .unsigned n => some n.toNat
  | .integer n => some n
  | .float q _ => if q.den = 1 then some q.num else none
  | _ => none

/-- The integer at the end of a path. -/
def integerAt (j : Json) (path : List String) : Option Int :=
  match follow path j with
  | .ok v => v.integer?
  | .error _ => none

end Json

namespace Peer.PeerService

/-- What follows the first colon of an entry of `trustedPeerList`. -/
def trustedPort (trustedPeer : String) : Bytes :=
  bytesOf (String.ofList (trustedPeer.toList.dropWhile fun c => c ≠ ':').tail)

/-- An entry of `trustedPeerList` in the constructor of `PeerService`. -/
def trustedHost (trustedPeer : String) : Except Exn UserHost :=
  if ':' ∈ trustedPeer.toList then do
    let port ← stoul (trustedPort trustedPeer)
    return { host := String.ofList (trustedPeer.toList.takeWhile fun c => c ≠ ':')
             port := port.toUInt16 }
  else
    .error (.std ("Invalid peer format: " ++ trustedPeer))

end Peer.PeerService

namespace Numbers

/-- A number at a place of the input, the bits of the variable it goes to, and what is there
afterwards. -/
structure Reading where
  written : Option Int
  bits : Nat
  taken : Nat

namespace Reading

/-- What is taken is the integer that is written. -/
def Kept (r : Reading) : Prop := r.written = some (r.taken : Int)

/-- An integer is written, and the variable has room for it. -/
def Fits (r : Reading) : Prop := ∃ z, r.written = some z ∧ 0 ≤ z ∧ z < 2 ^ r.bits

/-- What is taken is the integer that is written, cut to the bits of the variable. -/
def Cast (r : Reading) : Prop := ∀ z, r.written = some z → (r.taken : Int) = z % 2 ^ r.bits

/-- A cast keeps what fits. -/
theorem Cast.kept_iff {r : Reading} (h : r.Cast) : r.Kept ↔ r.Fits := by
  have hpos : (0 : Int) < 2 ^ r.bits := Int.pow_pos (by decide)
  constructor
  · intro hkept
    have htaken := h _ hkept
    refine ⟨_, hkept, Int.natCast_nonneg _, ?_⟩
    rw [htaken]
    exact Int.emod_lt_of_pos _ hpos
  · rintro ⟨z, hz, hnonneg, hlt⟩
    rw [Kept, hz, h z hz, Int.emod_eq_of_lt hnonneg hlt]

end Reading

/-! ## Conversions -/

open Json Reading

variable {j v w : Json} {path : List String} {z : Option Int} {n : Nat}

/-- An integer is the number that a cast starts from. -/
theorem number?_of_integer? {x : Int} (h : v.integer? = some x) : v.number? = some x := by
  cases v with
  | float q text =>
      rw [integer?] at h
      split_ifs at h with hden
      have hx : q.num = x := Option.some.inj h
      have hwhole : truncate q = q.num := by
        rw [truncate, hden]
        exact Int.tdiv_one _
      rw [number?, hwhole, hx]
  | unsigned n => exact h
  | integer n => exact h
  | _ => cases h

theorem toNat_emod (x : Int) (bits : Nat) :
    ((x % (2 ^ bits : Nat)).toNat : Int) = x % 2 ^ bits := by
  have hpos : (0 : Int) < 2 ^ bits := Int.pow_pos (by decide)
  push_cast
  exact Int.toNat_of_nonneg (Int.emod_nonneg x hpos.ne')

theorem cast_getUnsigned {bits : Nat} (h : v.getUnsigned bits = .ok n) :
    Cast ⟨v.integer?, bits, n⟩ := by
  intro x hx
  have hnumber := number?_of_integer? hx
  have hn : (x % (2 ^ bits : Nat)).toNat = n := by
    -- a boolean is taken for a number as well, but no integer is written there
    cases v with
    | boolean b => cases hx
    | _ => simpa [getUnsigned, hnumber] using h
  rw [← hn]
  exact toNat_emod x bits

/-- Fewer bits keep the lower ones. -/
theorem Reading.Cast.narrow {bits bits' : Nat} (h : Cast ⟨z, bits', n⟩) (hbits : bits ≤ bits') :
    Cast ⟨z, bits, n % 2 ^ bits⟩ := by
  intro x hx
  have hn : (n : Int) = x % 2 ^ bits' := h x hx
  have hdvd : ((2 ^ bits : Nat) : Int) ∣ (2 ^ bits' : Nat) :=
    Int.natCast_dvd_natCast.2 (Nat.pow_dvd_pow 2 hbits)
  push_cast at hdvd ⊢
  rw [hn]
  exact Int.emod_emod_of_dvd x hdvd

theorem cast_getUInt16 {n : UInt16} (h : v.getUInt16 = .ok n) : Cast ⟨v.integer?, 16, n.toNat⟩ := by
  rcases hget : v.getUnsigned 16 with e | m
  · simp [getUInt16, hget, Functor.map, Except.map] at h
  · have hn : UInt16.ofNat m = n := by simpa [getUInt16, hget, Functor.map, Except.map] using h
    rw [← hn, UInt16.toNat_ofNat']
    exact (cast_getUnsigned hget).narrow le_rfl

theorem cast_getUInt32 {n : UInt32} (h : v.getUInt32 = .ok n) : Cast ⟨v.integer?, 32, n.toNat⟩ := by
  rcases hget : v.getUnsigned 32 with e | m
  · simp [getUInt32, hget, Functor.map, Except.map] at h
  · have hn : UInt32.ofNat m = n := by simpa [getUInt32, hget, Functor.map, Except.map] using h
    rw [← hn, UInt32.toNat_ofNat']
    exact (cast_getUnsigned hget).narrow le_rfl

theorem cast_getUInt64 {n : UInt64} (h : v.getUInt64 = .ok n) : Cast ⟨v.integer?, 64, n.toNat⟩ := by
  intro x hx
  have hn : UInt64.ofNat (x % (2 ^ 64 : Nat)).toNat = n := by
    simpa [getUInt64, number?_of_integer? hx] using h
  have hlt : (x % (2 ^ 64 : Nat)).toNat < 2 ^ 64 := by omega
  rw [← hn, UInt64.toNat_ofNat', Nat.mod_eq_of_lt hlt]
  exact toNat_emod x 64

/-- `start` of a block range: 64 bits, of which 32 are kept. -/
theorem cast_toUInt32 {n : UInt64} (h : v.getUInt64 = .ok n) :
    Cast ⟨v.integer?, 32, n.toUInt32.toNat⟩ := by
  rw [UInt64.toNat_toUInt32]
  exact (cast_getUInt64 h).narrow (by decide)

/-- Digits to the end are what `strtol` and `strtoul` read. -/
theorem readDecimal_of_writtenInt {s : Bytes} {x : Int} (h : writtenInt s = some x) :
    ∃ negative n, readDecimal s = some (negative, n) ∧ x = if negative then -(n : Int) else n := by
  rw [writtenInt] at h
  rcases hsplit : splitSign (s.dropWhile isSpace) with ⟨negative, digits⟩
  rw [hsplit] at h
  simp only at h
  split_ifs at h with hdigits hneg
  all_goals
    have htake : digits.takeWhile isDigit = digits :=
      List.takeWhile_eq_self_iff.2 (List.all_eq_true.1 hdigits.2)
    refine ⟨negative, decimalValue digits, ?_, ?_⟩
    · rw [readDecimal, hsplit]
      cases digits with
      | nil => exact absurd rfl hdigits.1
      | cons c rest => simp only [htake]
    · simpa [hneg, eq_comm] using h

theorem cast_stoul {s : Bytes} {n : UInt32} (h : stoul s = .ok n) :
    Cast ⟨writtenInt s, 32, n.toNat⟩ := by
  intro x hx
  rcases readDecimal_of_writtenInt hx with ⟨negative, m, hread, rfl⟩
  rw [stoul, hread] at h
  simp only at h
  split_ifs at h with hlt hneg
  · -- the minus sign wraps around, as it does modulo `2^32`
    have hn : -UInt32.ofNat m = n := Except.ok.inj h
    have hsize : UInt32.size = 2 ^ 32 := rfl
    rw [← hn, UInt32.toNat_neg, UInt32.toNat_ofNat', hneg, hsize]
    simp only [if_true]
    omega
  · have hn : UInt32.ofNat m = n := Except.ok.inj h
    rw [← hn, UInt32.toNat_ofNat', if_neg hneg]
    exact Int.natCast_mod m (2 ^ 32)

/-! ## Reads of the decoders -/

theorem integerAt_of_follow (h : follow path j = .ok v) : j.integerAt path = v.integer? := by
  rw [integerAt, h]

/-- A key of the payload. -/
theorem integerAt_payload {key : String} (hpayload : j.field "payload" = .ok v)
    (hkey : v.field key = .ok w) : j.integerAt ["payload", key] = w.integer? := by
  apply integerAt_of_follow
  simp [follow, hpayload, hkey, bind, Except.bind]

/-- The port of the peer at a path. -/
def peerReading (j : Json) (path : List String) (p : UserPeer) : Reading :=
  ⟨j.integerAt (path ++ ["port"]), 16, p.port.toNat⟩

/-- A number of the payload that goes to an `unsigned int`. -/
def payloadReading (j : Json) (key : String) (n : UInt32) : Reading :=
  ⟨j.integerAt ["payload", key], 32, n.toNat⟩

/-- The ports of sender and recipient. -/
def headerReadings (j : Json) (m : Message) : List Reading :=
  [peerReading j ["from"] m.fromPeer, peerReading j ["to"] m.toPeer]

/-- What is read where something from outside is accepted: the decoders of peers and messages, the
commands with an address, the list of trusted peers. -/
inductive Accepted (E : Env) : List Reading → Prop
  | peer {j : Json} {p : UserPeer} (h : UserPeer.ofJson j = .ok p) : Accepted E [peerReading j [] p]
  | message {j : Json} {m : Message} (h : Message.ofJson j = .ok m) :
      Accepted E (headerReadings j m)
  | error {j : Json} {m : ErrorMessageResponse} (h : ErrorMessageResponse.ofJson j = .ok m) :
      Accepted E (headerReadings j m.toMessage)
  | blockchainError {j : Json} {m : BlockchainErrorMessageResponse}
      (h : BlockchainErrorMessageResponse.ofJson j = .ok m) :
      Accepted E (headerReadings j m.toMessage)
  | connection {j : Json} {m : ConnectionMessage} (h : ConnectionMessage.ofJson j = .ok m) :
      Accepted E (headerReadings j m.toMessage)
  | connectionResponse {j : Json} {m : ConnectionMessageResponse}
      (h : ConnectionMessageResponse.ofJson j = .ok m) :
      Accepted E (headerReadings j m.toMessage ++
        [payloadReading j "peersToReceive" m.peersToReceive,
          payloadReading j "missingBlocksCount" m.missingBlocksCount])
  | peerList {j : Json} {m : PeerListMessage} (h : PeerListMessage.ofJson j = .ok m) :
      Accepted E (headerReadings j m.toMessage ++
        [payloadReading j "start" m.start, payloadReading j "count" m.count])
  | peerListResponse {j : Json} {elements : List Json} {m : PeerListMessageResponse}
      (h : PeerListMessageResponse.ofJson j = .ok m)
      (helements : payloadArray j "peers" = .ok elements) :
      Accepted E (headerReadings j m.toMessage ++
        List.zipWith (fun v p => peerReading v [] p) elements m.peers)
  | blockRange {j : Json} {m : BlockRangeMessage} (h : BlockRangeMessage.ofJson j = .ok m) :
      Accepted E (headerReadings j m.toMessage ++
        [payloadReading j "start" m.start, payloadReading j "count" m.count])
  | blockRangeResponse {j : Json} {m : BlockRangeMessageResponse}
      (h : BlockRangeMessageResponse.ofJson j = .ok m) :
      Accepted E (headerReadings j m.toMessage)
  | disconnection {j : Json} {m : Message} (h : DisconnectionMessage.ofJson j = .ok m) :
      Accepted E (headerReadings j m)
  | disconnectionResponse {j : Json} {m : Message}
      (h : DisconnectionMessageResponse.ofJson j = .ok m) : Accepted E (headerReadings j m)
  | text {j : Json} {m : TextMessage} {privateKey : String}
      {invertFromTo createObjectIfError : Bool}
      (h : TextMessage.ofJson E j privateKey invertFromTo createObjectIfError = .ok m) :
      Accepted E (headerReadings j m.toMessage)
  | textResponse {j : Json} {m : Message} (h : TextMessageResponse.ofJson j = .ok m) :
      Accepted E (headerReadings j m)
  /-- `/send` and `/chat`. -/
  | typed {portStr : Bytes} {port : UInt16} (h : ChatApplication.parsePort portStr = some port) :
      Accepted E [⟨writtenInt portStr, 16, port.toNat⟩]
  | trusted {trustedPeer : String} {host : UserHost}
      (h : PeerService.trustedHost trustedPeer = .ok host) :
      Accepted E [⟨writtenInt (PeerService.trustedPort trustedPeer), 16, host.port.toNat⟩]

theorem forall_mem_pair {P : Reading → Prop} {r r' : Reading} (h : P r) (h' : P r') :
    ∀ x ∈ [r, r'], P x :=
  List.forall_mem_cons.2 ⟨h, List.forall_mem_singleton.2 h'⟩

theorem cast_peerReading {p : UserPeer} (hv : follow path j = .ok v)
    (h : UserPeer.ofJson v = .ok p) : (peerReading j path p).Cast := by
  rcases UserPeer.fields_of_ofJson h with ⟨_, ⟨w, hw, hport⟩, _⟩
  rw [peerReading, integerAt_of_follow (follow_concat hv hw)]
  exact cast_getUInt16 hport

theorem cast_headerReadings {m : Message} (h : Message.ofJson j = .ok m) :
    ∀ r ∈ headerReadings j m, r.Cast := by
  rcases Message.fields_of_ofJson h with ⟨_, ⟨v, hv, hfrom⟩, ⟨w, hw, hto⟩, _⟩
  have hv' : follow ["from"] j = .ok v := by simp [follow, hv, bind, Except.bind]
  have hw' : follow ["to"] j = .ok w := by simp [follow, hw, bind, Except.bind]
  exact forall_mem_pair (cast_peerReading hv' hfrom) (cast_peerReading hw' hto)

/-- The header of a message, then what its type adds. -/
theorem cast_append {m : Message} {readings : List Reading} (h : Message.ofJson j = .ok m)
    (hreadings : ∀ r ∈ readings, r.Cast) : ∀ r ∈ headerReadings j m ++ readings, r.Cast := by
  intro r hr
  rcases List.mem_append.1 hr with hheader | hpayload
  · exact cast_headerReadings h r hheader
  · exact hreadings r hpayload

theorem cast_payloadReading {key : String} {n : UInt32} (hpayload : j.field "payload" = .ok v)
    (hkey : v.field key = .ok w) (h : w.getUInt32 = .ok n) : (payloadReading j key n).Cast := by
  rw [payloadReading, integerAt_payload hpayload hkey]
  exact cast_getUInt32 h

/-- The elements of an array and the peers that come out of them. -/
theorem cast_elements {elements : List Json} {peers : List UserPeer}
    (h : decodeAll UserPeer.ofJson elements = .ok peers) :
    ∀ r ∈ List.zipWith (fun v p => peerReading v [] p) elements peers, r.Cast := by
  induction elements generalizing peers with
  | nil => simp
  | cons v elements ih =>
      rcases bind_eq_ok.1 h with ⟨p, hp, h⟩
      rcases bind_pure_eq_ok.1 h with ⟨rest, hrest, rfl⟩
      simp only [List.zipWith_cons_cons, List.forall_mem_cons]
      exact ⟨cast_peerReading rfl hp, ih hrest⟩

theorem cast_connectionResponse {m : ConnectionMessageResponse}
    (h : ConnectionMessageResponse.ofJson j = .ok m) :
    ∀ r ∈ headerReadings j m.toMessage ++ [payloadReading j "peersToReceive" m.peersToReceive,
      payloadReading j "missingBlocksCount" m.missingBlocksCount], r.Cast := by
  rcases bind_eq_ok.1 h with ⟨base, hbase, h⟩
  rcases bind_eq_ok.1 h with ⟨_, _, h⟩
  rcases bind_eq_ok.1 h with ⟨v, hv, h⟩
  rcases bind_eq_ok.1 h with ⟨w, hw, h⟩
  rcases bind_eq_ok.1 h with ⟨peersToReceive, hpeers, h⟩
  rcases bind_eq_ok.1 h with ⟨v', hv', h⟩
  rcases bind_eq_ok.1 h with ⟨w', hw', h⟩
  rcases bind_pure_eq_ok.1 h with ⟨missingBlocksCount, hmissing, rfl⟩
  refine cast_append hbase ?_
  exact forall_mem_pair (cast_payloadReading hv hw hpeers) (cast_payloadReading hv' hw' hmissing)

theorem cast_peerList {m : PeerListMessage} (h : PeerListMessage.ofJson j = .ok m) :
    ∀ r ∈ headerReadings j m.toMessage ++
      [payloadReading j "start" m.start, payloadReading j "count" m.count], r.Cast := by
  rcases bind_eq_ok.1 h with ⟨base, hbase, h⟩
  rcases bind_eq_ok.1 h with ⟨_, _, h⟩
  rcases bind_eq_ok.1 h with ⟨v, hv, h⟩
  rcases bind_eq_ok.1 h with ⟨w, hw, h⟩
  rcases bind_eq_ok.1 h with ⟨start, hstart, h⟩
  rcases bind_eq_ok.1 h with ⟨v', hv', h⟩
  rcases bind_eq_ok.1 h with ⟨w', hw', h⟩
  rcases bind_pure_eq_ok.1 h with ⟨count, hcount, rfl⟩
  refine cast_append hbase ?_
  exact forall_mem_pair (cast_payloadReading hv hw hstart) (cast_payloadReading hv' hw' hcount)

theorem cast_peerListResponse {elements : List Json} {m : PeerListMessageResponse}
    (h : PeerListMessageResponse.ofJson j = .ok m)
    (helements : payloadArray j "peers" = .ok elements) :
    ∀ r ∈ headerReadings j m.toMessage ++
      List.zipWith (fun v p => peerReading v [] p) elements m.peers, r.Cast := by
  rcases bind_eq_ok.1 h with ⟨base, hbase, h⟩
  rcases bind_eq_ok.1 h with ⟨_, _, h⟩
  rcases bind_eq_ok.1 h with ⟨elements', helements', h⟩
  rcases bind_pure_eq_ok.1 h with ⟨peers, hpeers, rfl⟩
  have heq : elements' = elements := Except.ok.inj (helements'.symm.trans helements)
  exact cast_append hbase (cast_elements (heq ▸ hpeers))

/-- `start` is the one number that is read into more bits than its variable has. -/
theorem cast_blockRange {m : BlockRangeMessage} (h : BlockRangeMessage.ofJson j = .ok m) :
    ∀ r ∈ headerReadings j m.toMessage ++
      [payloadReading j "start" m.start, payloadReading j "count" m.count], r.Cast := by
  rcases bind_eq_ok.1 h with ⟨base, hbase, h⟩
  rcases bind_eq_ok.1 h with ⟨_, _, h⟩
  rcases bind_eq_ok.1 h with ⟨v, hv, h⟩
  rcases bind_eq_ok.1 h with ⟨w, hw, h⟩
  rcases bind_eq_ok.1 h with ⟨start, hstart, h⟩
  rcases bind_eq_ok.1 h with ⟨v', hv', h⟩
  rcases bind_eq_ok.1 h with ⟨w', hw', h⟩
  rcases bind_eq_ok.1 h with ⟨count, hcount, h⟩
  rcases bind_eq_ok.1 h with ⟨_, _, h⟩
  rcases bind_eq_ok.1 h with ⟨_, _, h⟩
  rcases bind_pure_eq_ok.1 h with ⟨lastHash, _, rfl⟩
  refine cast_append hbase ?_
  refine forall_mem_pair ?_ (cast_payloadReading hv' hw' hcount)
  -- so its upper half is dropped after the conversion
  rw [payloadReading, integerAt_payload hv hw]
  exact cast_toUInt32 hstart

/-! ## Text -/

theorem cast_typed {portStr : Bytes} {port : UInt16}
    (h : ChatApplication.parsePort portStr = some port) :
    Cast ⟨writtenInt portStr, 16, port.toNat⟩ := by
  rw [ChatApplication.parsePort] at h
  split_ifs at h with hempty
  rw [not_or, not_not] at hempty
  intro x hx
  rw [writtenInt_digits hempty.1 hempty.2] at hx
  have hx' : (decimalValue portStr : Int) = x := Option.some.inj hx
  rw [stoi_digits hempty.1 hempty.2] at h
  split_ifs at h
  have hport : UInt16.ofInt (decimalValue portStr) = port := Option.some.inj h
  rw [← hport, toNat_ofInt16, hx']
  exact toNat_emod x 16

theorem cast_trusted {trustedPeer : String} {host : UserHost}
    (h : PeerService.trustedHost trustedPeer = .ok host) :
    Cast ⟨writtenInt (PeerService.trustedPort trustedPeer), 16, host.port.toNat⟩ := by
  rw [PeerService.trustedHost] at h
  split_ifs at h
  rcases bind_pure_eq_ok.1 h with ⟨port, hport, rfl⟩
  rw [UInt32.toNat_toUInt16]
  exact (cast_stoul hport).narrow (by decide)

/-! ## What is kept -/

/-- Wherever a number enters, what is taken is the integer that is written, cut to its bits. -/
theorem cast_of_accepted {E : Env} {readings : List Reading} (h : Accepted E readings) :
    ∀ r ∈ readings, r.Cast := by
  cases h with
  | peer h => exact List.forall_mem_singleton.2 (cast_peerReading rfl h)
  | message h => exact cast_headerReadings h
  | error h => exact cast_headerReadings (ErrorMessageResponse.message_of_ofJson h)
  | blockchainError h =>
      exact cast_headerReadings (BlockchainErrorMessageResponse.message_of_ofJson h)
  | connection h => exact cast_headerReadings (ConnectionMessage.message_of_ofJson h)
  | connectionResponse h => exact cast_connectionResponse h
  | peerList h => exact cast_peerList h
  | peerListResponse h helements => exact cast_peerListResponse h helements
  | blockRange h => exact cast_blockRange h
  | blockRangeResponse h =>
      exact cast_headerReadings (BlockRangeMessageResponse.message_of_ofJson h)
  | disconnection h => exact cast_headerReadings (message_of_ofJsonBare h)
  | disconnectionResponse h => exact cast_headerReadings (message_of_ofJsonBare h)
  | text h => exact cast_headerReadings (TextMessage.message_of_ofJson h)
  | textResponse h => exact cast_headerReadings h
  | typed h => exact List.forall_mem_singleton.2 (cast_typed h)
  | trusted h => exact List.forall_mem_singleton.2 (cast_trusted h)

/-- The numbers of an input are kept. -/
def Kept (readings : List Reading) : Prop := ∀ r ∈ readings, r.Kept

/-- No number of one input is taken for a different one of the other. -/
def Apart (readings readings' : List Reading) : Prop :=
  ∀ r ∈ readings, ∀ r' ∈ readings', r.taken = r'.taken → r.written = r'.written

/-- Every place of an input has an integer that fits its variable. -/
def Fits (readings : List Reading) : Prop := ∀ r ∈ readings, r.Fits

theorem Kept.apart {readings readings' : List Reading} (h : Kept readings) (h' : Kept readings') :
    Apart readings readings' := by
  intro r hr r' hr' htaken
  rw [h r hr, h' r' hr', htaken]

/-- What is accepted is kept if and only if it fits, and numbers that fit are told apart. -/
theorem kept_iff_fits {E : Env} {readings : List Reading} (h : Accepted E readings) :
    (Kept readings ↔ Fits readings) ∧
      ∀ readings', Accepted E readings' → Fits readings → Fits readings' →
        Apart readings readings' := by
  have hkept : ∀ {rs}, Accepted E rs → (Kept rs ↔ Fits rs) := fun hrs =>
    forall₂_congr fun r hr => (cast_of_accepted hrs r hr).kept_iff
  refine ⟨hkept h, fun readings' h' hfits hfits' => ?_⟩
  exact ((hkept h).2 hfits).apart ((hkept h').2 hfits')

/-- A peer of the tests with any number for its port. -/
def testPeer (port : UInt64) : Json :=
  .object [("host", .string "127.0.0.1"), ("port", .unsigned port), ("public_key", .string "key")]

/-- What is read out of it. -/
def testReadings (port : UInt64) : List Reading :=
  [peerReading (testPeer port) [] ⟨⟨"127.0.0.1", port.toUInt16⟩, "key"⟩]

/-- Two ports of the tests. -/
theorem kept_iff_fits_ports :
    (Kept (testReadings 8001) ↔ Fits (testReadings 8001)) ∧
      ∀ readings', Accepted testEnv readings' → Fits (testReadings 8001) → Fits readings' →
        Apart (testReadings 8001) readings' :=
  kept_iff_fits (.peer (j := testPeer 8001) (p := ⟨⟨"127.0.0.1", 8001⟩, "key"⟩) rfl)

/-- 73537 is taken for 8001. -/
theorem port_aliased :
    Accepted testEnv (testReadings 73537) ∧ Accepted testEnv (testReadings 8001) ∧
      UserPeer.ofJson (testPeer 73537) = UserPeer.ofJson (testPeer 8001) ∧
      ¬ Kept (testReadings 73537) ∧ ¬ Apart (testReadings 73537) (testReadings 8001) := by
  refine ⟨.peer (p := ⟨⟨"127.0.0.1", 8001⟩, "key"⟩) rfl,
    .peer (p := ⟨⟨"127.0.0.1", 8001⟩, "key"⟩) rfl, rfl, ?_, ?_⟩
  · intro h
    have hkept := h _ List.mem_cons_self
    exact absurd (Option.some.inj hkept) (by decide)
  · intro h
    have hsame := h _ List.mem_cons_self _ List.mem_cons_self rfl
    exact absurd (Option.some.inj hsame) (by decide)

end Numbers
end DChat
