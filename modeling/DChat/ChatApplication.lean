import DChat.Decimal
import DChat.Peer
import DChat.Library.Separated
import Mathlib.Data.List.DropRight

/-!
# ChatApplication — the commands of the console

A line of input is any string of bytes.  `run` chooses the command by the beginning of the line;
`/send` and `/chat` take the rest of it apart by searching for blanks and colons.

A command sends nothing where it prints an error.  What is printed is left out, and so is what
becomes of a message: an exception of `sendSecretMessage` is caught and the loop over the peers
goes on.
-/

namespace DChat
namespace ChatApplication

open Utils Peer

/-! ## Searching -/

/-- `s.find(c, pos)`. -/
def find (s : Bytes) (c : UInt8) (pos : Nat) : Option Nat :=
  ((s.drop pos).findIdx? fun x => x = c).map fun i => i + pos

/-- The characters of `" \t"`. -/
def isBlank (c : UInt8) : Bool := c = 32 || c = 9

variable {s before after : Bytes} {c : UInt8} {pos : Nat}

theorem find_eq_none (h : c ∉ s) : find s c pos = none := by
  have hdrop : (s.drop pos).findIdx? (fun x => x = c) = none := by
    rw [List.findIdx?_eq_none_iff]
    intro x hx
    have hmem : x ∈ s := List.mem_of_mem_drop hx
    simpa using fun heq : x = c => h (heq ▸ hmem)
  rw [find, hdrop, Option.map_none]

/-- The first separator is found, also when the search starts behind the beginning. -/
theorem find_cut (h : c ∉ before) (hpos : pos ≤ before.length) :
    find (before ++ c :: after) c pos = some before.length := by
  have hnone : (before.drop pos).findIdx? (fun x => x = c) = none := by
    rw [List.findIdx?_eq_none_iff]
    intro x hx
    have hmem : x ∈ before := List.mem_of_mem_drop hx
    simpa using fun heq : x = c => h (heq ▸ hmem)
  rw [find, List.drop_append_of_le_length hpos, List.findIdx?_append, hnone]
  simp [List.findIdx?_cons]
  omega

/-! ## Addresses -/

/-- The check on the port, `std::stoi` and the cast to `unsigned short`; `none` is an error. -/
def parsePort (portStr : Bytes) : Option UInt16 :=
  if portStr = [] ∨ ¬ portStr.all isDigit then
    none
  else
    match stoi portStr with
    | .ok port => some (UInt16.ofInt port)
    | .error _ => none

/-- The two sides of the first colon, as `/send` and `/chat` take them. -/
def parseHostPort (hostPort : Bytes) : Option (Bytes × UInt16) :=
  match find hostPort 58 0 with
  | some colonPos => (parsePort (hostPort.drop (colonPos + 1))).map fun port =>
      (hostPort.take colonPos, port)
  | none => none

/-- `PeerService::findPeer` with a host that was typed in. -/
def findPeer (peers : List UserPeer) (host : Bytes) (port : UInt16) : Option UserPeer :=
  peers.find? fun p => bytesOf p.host = host ∧ p.port = port

theorem findPeer_bytesOf {peers : List UserPeer} {host : UserHost} {p : UserPeer} :
    findPeer peers (bytesOf host.host) host.port = some p ↔
      PeerService.findPeer peers host = .ok p := by
  have hhost : ∀ q : UserPeer, bytesOf q.host = bytesOf host.host ↔ q.host = host.host :=
    fun q => ⟨bytesOf_injective, congrArg bytesOf⟩
  rw [findPeer, PeerService.findPeer]
  simp only [hhost]
  cases peers.find? fun p => p.host = host.host ∧ p.port = host.port <;> simp

/-! ## Commands -/

/-- A call of `sendSecretMessage` with the message that `TextMessage::create` makes. -/
structure Send where
  recipient : UserPeer
  message : Bytes
  deriving DecidableEq, Repr

/-- `"all"`. -/
def allWord : Bytes := [97, 108, 108]

/-- The branch of `handleSendCommand` for one recipient. -/
def sendTo (peers : List UserPeer) (hostPort message : Bytes) : List Send :=
  match parseHostPort hostPort with
  | some (host, port) =>
      match findPeer peers host port with
      | some recipient => [{ recipient, message }]
      | none => []
  | none => []

/-- `ChatApplication::handleSendCommand`. -/
def handleSendCommand (peers : List UserPeer) (args : Bytes) : List Send :=
  match args.findIdx? fun c => !isBlank c with
  | none => []
  | some start =>
      let command := args.drop start
      if command.take 3 = allWord then
        match find command 32 3 with
        | none => []
        | some spaceAfterAll =>
            let message := command.drop (spaceAfterAll + 1)
            if message = [] then [] else peers.map fun recipient => { recipient, message }
      else
        match find command 32 0 with
        | none => []
        | some spacePos => sendTo peers (command.take spacePos) (command.drop (spacePos + 1))

/-! ## What a command to send says -/

/-- The first token, up to the first space. -/
def token (args : Bytes) : Bytes := (args.dropWhile isBlank).takeWhile fun c => c ≠ 32

/-- What follows the space. -/
def text (args : Bytes) : Bytes := ((args.dropWhile isBlank).dropWhile fun c => c ≠ 32).tail

/-- There is a space behind the token. -/
def HasSpace (args : Bytes) : Prop := 32 ∈ args.dropWhile isBlank

instance (args : Bytes) : Decidable (HasSpace args) :=
  inferInstanceAs (Decidable (32 ∈ args.dropWhile isBlank))

/-- The host and the port of the peer are the two sides of the first colon. -/
def NamedBy (t : Bytes) (p : UserPeer) : Prop :=
  ∃ host port, t = host ++ 58 :: port ∧ 58 ∉ host ∧ host = bytesOf p.host ∧ port ≠ [] ∧
    port.all isDigit = true ∧ decimalValue port = p.port.toNat

/-- The text goes to all peers if the token is `all` and there is a text, and else to nobody or to
the peer that the token names. -/
structure ReachesNamed (peers : List UserPeer) (args : Bytes) : Prop where
  broadcast : token args = allWord ∧ text args ≠ [] →
    handleSendCommand peers args = peers.map fun p => ⟨p, text args⟩
  single : ¬ (token args = allWord ∧ text args ≠ []) →
    handleSendCommand peers args = [] ∨
      ∃ p ∈ peers, handleSendCommand peers args = [⟨p, text args⟩] ∧ NamedBy (token args) p

/-- The token is cut off at the space. -/
theorem token_text_of_cut {args : Bytes} (h : args.dropWhile isBlank = before ++ 32 :: after)
    (hbefore : 32 ∉ before) : token args = before ∧ text args = after := by
  have hall : ∀ c ∈ before, (decide (c ≠ 32)) = true := by
    intro c hc
    simpa using fun heq : c = 32 => hbefore (heq ▸ hc)
  rw [token, text, h, List.takeWhile_append_of_pos hall, List.dropWhile_append_of_pos hall]
  simp

theorem command_eq_dropWhile {args : Bytes} {start : Nat}
    (h : args.findIdx? (fun c => !isBlank c) = some start) :
    args.drop start = args.dropWhile isBlank := by
  rw [List.findIdx?_eq_some_iff_findIdx_eq] at h
  rw [List.dropWhile_eq_drop_findIdx_not, h.2]

/-- A word without a space begins the command if and only if it begins the token. -/
theorem take_eq_allWord_iff (h : 32 ∉ before) :
    (before ++ 32 :: after).take 3 = allWord ↔ allWord <+: before := by
  constructor
  · intro htake
    have hbegins : allWord <+: before ++ 32 :: after := htake ▸ List.take_prefix _ _
    refine List.prefix_of_prefix_length_le hbegins (List.prefix_append _ _) ?_
    -- a shorter token would put the space into the word
    by_contra hshort
    have hspace : before ++ [32] <+: allWord := by
      refine List.prefix_of_prefix_length_le ⟨after, by simp⟩ hbegins ?_
      rw [List.length_append]
      exact Nat.lt_of_not_le hshort
    exact absurd (hspace.subset (by simp : (32 : UInt8) ∈ before ++ [32])) (by decide)
  · rintro ⟨rest, rfl⟩
    rfl

/-- The command in the words of its description. -/
theorem handleSendCommand_eq (peers : List UserPeer) (args : Bytes) :
    handleSendCommand peers args =
      if HasSpace args then
        if allWord <+: token args then
          if text args = [] then [] else peers.map fun p => ⟨p, text args⟩
        else
          sendTo peers (token args) (text args)
      else
        [] := by
  rw [handleSendCommand]
  cases hstart : args.findIdx? fun c => !isBlank c with
  | none =>
      -- blanks only
      have hnil : args.dropWhile isBlank = [] := by
        rw [List.dropWhile_eq_nil_iff]
        simpa using List.findIdx?_eq_none_iff.1 hstart
      rw [if_neg (by rw [HasSpace, hnil]; exact List.not_mem_nil)]
  | some start =>
      simp only [command_eq_dropWhile hstart]
      by_cases hspace : 32 ∈ args.dropWhile isBlank
      · rcases List.eq_append_cons_of_mem hspace with ⟨before, after, hcut, hbefore⟩
        rcases token_text_of_cut hcut hbefore with ⟨htoken, htext⟩
        rw [if_pos (show HasSpace args from hspace), htoken, htext, hcut]
        simp only [take_eq_allWord_iff hbefore]
        by_cases hall : allWord <+: before
        · have hthree : 3 ≤ before.length := hall.length_le
          rw [if_pos hall, if_pos hall, find_cut hbefore hthree]
          simp
        · rw [if_neg hall, if_neg hall, find_cut hbefore (Nat.zero_le _)]
          simp
      · rw [if_neg (show ¬ HasSpace args from hspace), find_eq_none hspace, find_eq_none hspace]
        split_ifs <;> rfl

/-! ## The single recipient -/

/-- A string of digits is a port unless `stoi` refuses it, and keeps its low 16 bits. -/
theorem parsePort_digits {digits : Bytes} (hne : digits ≠ []) (h : digits.all isDigit = true) :
    parsePort digits =
      if decimalValue digits < 2 ^ 31 then some (UInt16.ofInt (decimalValue digits))
      else none := by
  rw [parsePort, if_neg (by simp [hne, h]), stoi_digits hne h]
  by_cases hfits : decimalValue digits < 2 ^ 31
  · rw [if_pos hfits, if_pos hfits]
  · rw [if_neg hfits, if_neg hfits]

theorem parsePort_eq_none {portStr : Bytes} (h : portStr = [] ∨ ¬ portStr.all isDigit = true) :
    parsePort portStr = none := if_pos h

theorem parseHostPort_cut {host port : Bytes} (h : 58 ∉ host) :
    parseHostPort (host ++ 58 :: port) = (parsePort port).map fun p => (host, p) := by
  rw [parseHostPort, find_cut h (Nat.zero_le _)]
  simp

theorem findPeer_eq_some {peers : List UserPeer} {host : Bytes} {port : UInt16} {p : UserPeer}
    (h : findPeer peers host port = some p) :
    p ∈ peers ∧ bytesOf p.host = host ∧ p.port = port := by
  have hfound := List.find?_some h
  exact ⟨List.mem_of_find?_eq_some h, by simpa using hfound⟩

theorem findPeer_eq_none {peers : List UserPeer} {host : Bytes} {port : UInt16}
    (h : findPeer peers host port = none) {p : UserPeer} (hp : p ∈ peers)
    (hhost : bytesOf p.host = host) : p.port ≠ port := by
  have hnot := List.find?_eq_none.1 h p hp
  simpa [hhost] using hnot

/-- The number behind the first colon is no port, and what is left of it in 16 bits is the port of a
peer at the host. -/
def Aliased (peers : List UserPeer) (t : Bytes) : Prop :=
  ∃ host port, t = host ++ 58 :: port ∧ 58 ∉ host ∧ port.all isDigit = true ∧
    2 ^ 16 ≤ decimalValue port ∧ decimalValue port < 2 ^ 31 ∧
    ∃ p ∈ peers, bytesOf p.host = host ∧ p.port.toNat = decimalValue port % 2 ^ 16

/-- The first colon cuts a token in one way only. -/
theorem colon_cut {host port host' port' : Bytes} (hhost : 58 ∉ host) (hhost' : 58 ∉ host') :
    host ++ 58 :: port = host' ++ 58 :: port' ↔ host = host' ∧ port = port' := by
  constructor
  · intro heq
    have hcount : host.count 58 = host'.count 58 := by
      rw [List.count_eq_zero.2 hhost, List.count_eq_zero.2 hhost']
    exact Separated.append_cons_inj hcount heq
  · rintro ⟨rfl, rfl⟩
    rfl

theorem namedBy_cut {host port : Bytes} (hhost : 58 ∉ host) {p : UserPeer} :
    NamedBy (host ++ 58 :: port) p ↔ host = bytesOf p.host ∧ port ≠ [] ∧
      port.all isDigit = true ∧ decimalValue port = p.port.toNat := by
  constructor
  · rintro ⟨host', port', heq, hhost', h⟩
    rcases (colon_cut hhost hhost').1 heq with ⟨rfl, rfl⟩
    exact h
  · intro h
    exact ⟨host, port, rfl, hhost, h⟩

theorem aliased_cut {peers : List UserPeer} {host port : Bytes} (hhost : 58 ∉ host) :
    Aliased peers (host ++ 58 :: port) ↔ port.all isDigit = true ∧
      2 ^ 16 ≤ decimalValue port ∧ decimalValue port < 2 ^ 31 ∧
      ∃ p ∈ peers, bytesOf p.host = host ∧ p.port.toNat = decimalValue port % 2 ^ 16 := by
  constructor
  · rintro ⟨host', port', heq, hhost', h⟩
    rcases (colon_cut hhost hhost').1 heq with ⟨rfl, rfl⟩
    exact h
  · intro h
    exact ⟨host, port, rfl, hhost, h⟩

/-- The cast to 16 bits, in numbers. -/
theorem eq_port_iff {p : UserPeer} {n : Nat} :
    p.port = UInt16.ofInt (n : Int) ↔ p.port.toNat = n % 2 ^ 16 := by
  rw [← UInt16.toNat_inj, toNat_ofInt16]
  omega

/-- A host and a number that `stoi` takes: the peer that is found is the named one unless the number
is an alias. -/
theorem sendTo_digits_iff {peers : List UserPeer} {host port : Bytes} (hhost : 58 ∉ host)
    (hne : port ≠ []) (hdigits : port.all isDigit = true) (hfits : decimalValue port < 2 ^ 31)
    (message : Bytes) :
    (sendTo peers (host ++ 58 :: port) message = [] ∨
      ∃ p ∈ peers, sendTo peers (host ++ 58 :: port) message = [⟨p, message⟩] ∧
        NamedBy (host ++ 58 :: port) p) ↔ ¬ Aliased peers (host ++ 58 :: port) := by
  rw [aliased_cut hhost]
  have hparse : parseHostPort (host ++ 58 :: port) =
      some (host, UInt16.ofInt (decimalValue port)) := by
    rw [parseHostPort_cut hhost, parsePort_digits hne hdigits, if_pos hfits]
    rfl
  cases hfind : findPeer peers host (UInt16.ofInt (decimalValue port)) with
  | none =>
      -- nobody listens at the number that is left
      have hsend : sendTo peers (host ++ 58 :: port) message = [] := by
        simp only [sendTo, hparse, hfind]
      refine iff_of_true (Or.inl hsend) ?_
      rintro ⟨_, _, _, p, hp, hhost', hport⟩
      exact findPeer_eq_none hfind hp hhost' (eq_port_iff.2 hport)
  | some found =>
      rcases findPeer_eq_some hfind with ⟨hmem, hhost', hport⟩
      have hnumber := eq_port_iff.1 hport
      have hsend : sendTo peers (host ++ 58 :: port) message = [⟨found, message⟩] := by
        simp only [sendTo, hparse, hfind]
      rw [hsend]
      constructor
      · rintro (hnil | ⟨p, _, _, hnamed⟩) ⟨_, hlarge, _⟩
        · cases hnil
        · -- the named peer would have a port above 16 bits
          have hp := (namedBy_cut hhost).1 hnamed
          have hlt := p.port.toNat_lt
          omega
      · intro hnot
        refine Or.inr ⟨found, hmem, rfl, (namedBy_cut hhost).2 ⟨hhost'.symm, hne, hdigits, ?_⟩⟩
        by_contra hdiffers
        refine hnot ⟨hdigits, ?_, hfits, found, hmem, hhost', hnumber⟩
        omega

/-- One message goes to the peer that the token names, or to nobody, if the number is no alias. -/
theorem sendTo_named_iff (peers : List UserPeer) (t message : Bytes) :
    (sendTo peers t message = [] ∨
      ∃ p ∈ peers, sendTo peers t message = [⟨p, message⟩] ∧ NamedBy t p) ↔ ¬ Aliased peers t := by
  by_cases hcolon : 58 ∈ t
  · rcases List.eq_append_cons_of_mem hcolon with ⟨host, port, rfl, hhost⟩
    by_cases hdigits : port ≠ [] ∧ port.all isDigit = true
    · by_cases hfits : decimalValue port < 2 ^ 31
      · exact sendTo_digits_iff hhost hdigits.1 hdigits.2 hfits message
      · -- `stoi` throws
        rw [aliased_cut hhost]
        refine iff_of_true (Or.inl ?_) fun h => hfits h.2.2.1
        rw [sendTo, parseHostPort_cut hhost, parsePort_digits hdigits.1 hdigits.2, if_neg hfits]
        rfl
    · -- the port is no number, and no alias either
      have hbad : port = [] ∨ ¬ port.all isDigit = true := by
        rwa [not_and_or, not_not] at hdigits
      rw [aliased_cut hhost]
      refine iff_of_true (Or.inl ?_) ?_
      · rw [sendTo, parseHostPort_cut hhost, parsePort_eq_none hbad]
        rfl
      · rintro ⟨hall, hlarge, _⟩
        rcases hbad with rfl | hnot
        · exact absurd hlarge (by decide)
        · exact hnot hall
  · have hnil : sendTo peers t message = [] := by
      rw [sendTo, parseHostPort, find_eq_none hcolon]
    refine iff_of_true (Or.inl hnil) ?_
    rintro ⟨host, port, rfl, _⟩
    exact hcolon (by simp)

/-! ## Who is reached -/

/-- A token that begins with `all` is `all`, or else there is nothing to send, nobody to send to, or
only the peer that the token names; and the number of another token is no alias. -/
structure WellAddressed (peers : List UserPeer) (args : Bytes) : Prop where
  all : allWord <+: token args → token args ≠ allWord → text args ≠ [] →
    peers = [] ∨ ∃ p, peers = [p] ∧ NamedBy (token args) p
  one : ¬ allWord <+: token args → HasSpace args → ¬ Aliased peers (token args)

/-- A text follows a space. -/
theorem hasSpace_of_text {args : Bytes} (h : text args ≠ []) : HasSpace args := by
  by_contra hspace
  have hall : ∀ c ∈ args.dropWhile isBlank, (decide (c ≠ 32)) = true := by
    intro c hc
    have hne : c ≠ 32 := by
      rintro rfl
      exact hspace hc
    simpa using hne
  rw [text, List.dropWhile_eq_nil_iff.2 hall] at h
  exact h rfl

theorem send_map_eq_singleton {peers : List UserPeer} {message : Bytes} {p : UserPeer} :
    (peers.map fun q => (⟨q, message⟩ : Send)) = [⟨p, message⟩] ↔ peers = [p] := by
  constructor
  · intro h
    rcases List.map_eq_singleton_iff.1 h with ⟨q, rfl, hq⟩
    cases hq
    rfl
  · rintro rfl
    rfl

/-- A token that begins with `all`, and a text: everybody gets it. -/
theorem reaches_all_iff {peers : List UserPeer} {args : Bytes} (hall : allWord <+: token args)
    (htext : text args ≠ []) : ReachesNamed peers args ↔ WellAddressed peers args := by
  have heq : handleSendCommand peers args = peers.map fun p => ⟨p, text args⟩ := by
    rw [handleSendCommand_eq, if_pos (hasSpace_of_text htext), if_pos hall, if_neg htext]
  by_cases hword : token args = allWord
  · refine iff_of_true ⟨fun _ => heq, fun hnot => absurd ⟨hword, htext⟩ hnot⟩ ⟨?_, ?_⟩
    · intro _ hne
      exact absurd hword hne
    · intro hnot
      exact absurd hall hnot
  · -- a longer token is taken for `all`
    constructor
    · intro h
      refine ⟨fun _ _ _ => ?_, fun hnot => absurd hall hnot⟩
      rcases h.single fun hboth => hword hboth.1 with hnil | ⟨p, hp, hsend, hnamed⟩
      · left
        rwa [heq, List.map_eq_nil_iff] at hnil
      · right
        rw [heq, send_map_eq_singleton] at hsend
        exact ⟨p, hsend, hnamed⟩
    · intro h
      refine ⟨fun hboth => absurd hboth.1 hword, fun _ => ?_⟩
      rcases h.all hall hword htext with rfl | ⟨p, rfl, hnamed⟩
      · left
        rw [heq]
        rfl
      · right
        exact ⟨p, List.mem_singleton_self p, heq, hnamed⟩

/-- Any other token: at most one peer gets the text. -/
theorem reaches_one_iff {peers : List UserPeer} {args : Bytes} (hall : ¬ allWord <+: token args) :
    ReachesNamed peers args ↔ WellAddressed peers args := by
  have heq := handleSendCommand_eq peers args
  have hword : token args ≠ allWord := fun h => hall (h ▸ List.prefix_refl _)
  by_cases hspace : HasSpace args
  · rw [if_pos hspace, if_neg hall] at heq
    constructor
    · intro h
      refine ⟨fun hbegins => absurd hbegins hall, fun _ _ => ?_⟩
      rw [← sendTo_named_iff peers (token args) (text args), ← heq]
      exact h.single fun hboth => hword hboth.1
    · intro h
      refine ⟨fun hboth => absurd hboth.1 hword, fun _ => ?_⟩
      rw [heq, sendTo_named_iff]
      exact h.one hall hspace
  · rw [if_neg hspace] at heq
    exact iff_of_true ⟨fun hboth => absurd hboth.1 hword, fun _ => Or.inl heq⟩
      ⟨fun hbegins => absurd hbegins hall, fun _ h => absurd h hspace⟩

/-- A command reaches the named recipients if and only if it is well addressed. -/
theorem send_reaches_named_iff (peers : List UserPeer) (args : Bytes) :
    ReachesNamed peers args ↔ WellAddressed peers args := by
  by_cases hall : allWord <+: token args
  · by_cases htext : text args = []
    · -- nothing to send
      have hnil : handleSendCommand peers args = [] := by
        rw [handleSendCommand_eq, if_pos hall, if_pos htext]
        split_ifs <;> rfl
      refine iff_of_true ⟨fun h => absurd htext h.2, fun _ => Or.inl hnil⟩ ⟨?_, ?_⟩
      · intro _ _ hne
        exact absurd htext hne
      · intro hnot
        exact absurd hall hnot
    · exact reaches_all_iff hall htext
  · exact reaches_one_iff hall

/-- A private message to the host `allison` goes to everybody. -/
theorem private_message_broadcast :
    ¬ ReachesNamed
      [{ host := "allison", port := 8006, publicKey := "a" },
        { host := "127.0.0.1", port := 8007, publicKey := "b" }]
      (bytesOf " allison:8006 hi") := by
  intro h
  rcases h.single (by decide) with hnil | ⟨p, _, hsend, _⟩
  · exact absurd hnil (by decide)
  · have hlength := congrArg List.length hsend
    rw [List.length_singleton] at hlength
    exact absurd hlength (by decide)

end ChatApplication
end DChat
