import DChat.Utils
import DChat.Library.Sha256
import Mathlib.Data.Set.Function

/-!
# Crypto — the `ICrypto` interface, its laws, and the test implementation

`ICrypto` is the interface every service is written against.  A call that draws from a random
generator takes the draw as an argument, so it is a function here; a call that may throw
returns an `Except`.

The laws are what the services rely on: signatures made with a generated key pair verify, key
strings decode to the key, and two parties with generated pairs agree on a session key that
decrypts what it encrypted.  `XORCrypto`, the implementation of the test helpers, satisfies
them; it stands for the cipher library wherever a concrete run is looked at.
-/

namespace DChat
namespace Crypto

open Utils

/-- A draw of the random generator. -/
abbrev Rand := Nat

/-- `crypto::KeyPair`. -/
structure KeyPair where
  publicKey : Bytes
  privateKey : Bytes
  deriving DecidableEq, Repr

/-- `crypto::ICrypto`. -/
structure ICrypto where
  generateKeyPair : Rand → KeyPair
  keyToString : Bytes → String
  stringToKey : String → Except Exn Bytes
  createSessionKey : (privateKey peerPublicKey : Bytes) → Except Exn Bytes
  encrypt : Rand → (message key : Bytes) → Except Exn Bytes
  decrypt : (cipher key : Bytes) → Except Exn Bytes
  sign : Rand → (message privateKey : Bytes) → Except Exn Bytes
  verify : (message signature publicKey : Bytes) → Bool

namespace ICrypto

variable (c : ICrypto)

/-- The pair is one that `generateKeyPair` gives. -/
def Generated (kp : KeyPair) : Prop := ∃ rnd, c.generateKeyPair rnd = kp

/-- `stringToKey` inverts `keyToString`, whose base64 or hex has no NUL, and `verify` accepts
what `sign` produced for the matching key. -/
structure SignatureLaws : Prop where
  stringToKey_keyToString : ∀ k, c.stringToKey (c.keyToString k) = .ok k
  noNul_keyToString : ∀ k, NoNul (c.keyToString k)
  sign_ok : ∀ {kp}, c.Generated kp → ∀ rnd m, ∃ s, c.sign rnd m kp.privateKey = .ok s
  verify_sign : ∀ {kp}, c.Generated kp → ∀ {rnd m s},
    c.sign rnd m kp.privateKey = .ok s → c.verify m s kp.publicKey = true

/-- Two generated pairs have one session key from either side, and `decrypt` inverts
`encrypt` under it. -/
structure SessionLaws : Prop where
  session_ok : ∀ {a b}, c.Generated a → c.Generated b →
    ∃ k, c.createSessionKey a.privateKey b.publicKey = .ok k
  session_symm : ∀ {a b}, c.Generated a → c.Generated b →
    c.createSessionKey a.privateKey b.publicKey = c.createSessionKey b.privateKey a.publicKey
  encrypt_ok : ∀ {a b k}, c.Generated a → c.Generated b →
    c.createSessionKey a.privateKey b.publicKey = .ok k →
    ∀ rnd m, ∃ e, c.encrypt rnd m k = .ok e
  decrypt_encrypt : ∀ {a b k}, c.Generated a → c.Generated b →
    c.createSessionKey a.privateKey b.publicKey = .ok k →
    ∀ {rnd m e}, c.encrypt rnd m k = .ok e → c.decrypt e k = .ok m

end ICrypto

/-- The libraries under the program: the hash function of the cipher library, and the
implementation of `ICrypto` in use. -/
structure Env where
  SHA256 : Bytes → Digest
  crypto : ICrypto

namespace Env

/-- `utils::sha256`. -/
def sha256 (E : Env) (data : Bytes) : String := toHex (E.SHA256 data).bytes

theorem length_sha256 (E : Env) (data : Bytes) : (E.sha256 data).toList.length = 64 := by
  rw [sha256, length_toHex, (E.SHA256 data).length_eq]

theorem noNul_sha256 (E : Env) (data : Bytes) : NoNul (E.sha256 data) := noNul_toHex _

/-- A digest and its hex string say the same. -/
theorem sha256_inj {E : Env} {x y : Bytes} : E.sha256 x = E.sha256 y ↔ E.SHA256 x = E.SHA256 y := by
  constructor
  · intro h
    have hbytes : (E.SHA256 x).bytes = (E.SHA256 y).bytes := toHex_injective h
    cases hx : E.SHA256 x
    cases hy : E.SHA256 y
    simpa [hx, hy] using hbytes
  · intro h
    rw [sha256, sha256, h]

/-- A hex string has two digits for each byte, is read back, and so stands for the bytes; a hash
string stands for its digest. -/
theorem hex_loses_nothing :
    (∀ data : Bytes, (bytesOf (toHex data)).length = 2 * data.length ∧
      (∀ c ∈ (toHex data).toList, c ∈ "0123456789abcdef".toList) ∧
      fromHex (toHex data) = .ok data) ∧
    Function.Injective toHex ∧
    ∀ (E : Env) (x y : Bytes), E.sha256 x = E.sha256 y ↔ E.SHA256 x = E.SHA256 y := by
  refine ⟨?_, toHex_injective, fun E x y => sha256_inj⟩
  intro data
  exact ⟨length_bytesOf_toHex data, fun c hc => mem_toHex hc, fromHex_toHex data⟩

/-- A digest is never the marker for the missing parent of a first block. -/
theorem sha256_ne_zero (E : Env) (data : Bytes) : E.sha256 data ≠ "0" := by
  intro h
  have hlen := E.length_sha256 data
  rw [h] at hlen
  exact absurd hlen (by decide)

/-- No two of the strings in `S` have one digest. -/
def CollisionFree (E : Env) (S : Set Bytes) : Prop := Set.InjOn E.sha256 S

theorem CollisionFree.mono {E : Env} {S T : Set Bytes} (h : E.CollisionFree T) (hST : S ⊆ T) :
    E.CollisionFree S := Set.InjOn.mono hST h

end Env

/-! ## The implementation of the test helpers -/

namespace XORCrypto

/-- The loop `out[i % 32] ^= data[i]` over 32 zero bytes. -/
def fold32 (data : Bytes) : Bytes :=
  data.zipIdx.foldl (fun out x => out.modify (x.2 % 32) (· ^^^ x.1)) (List.replicate 32 0)

/-- `XORCrypto::sha256_bytes`. -/
def sha256_bytes (data : Bytes) : Bytes := fold32 data

/-- `XORCrypto::generateSecret`: the draw's base-256 digits are the generator's bytes. -/
def generateSecret (rnd : Rand) (bytes : Nat) : Bytes :=
  (List.range bytes).map fun i => UInt8.ofNat (rnd / 256 ^ i % 256)

/-- `XORCrypto::generateKeyPair`: the public key is the private key. -/
def generateKeyPair (rnd : Rand) : KeyPair :=
  let secret := generateSecret rnd 32
  { publicKey := secret, privateKey := secret }

/-- `XORCrypto::createSessionKey`.  With one empty key of the two its loop takes an index modulo 0;
that is a failure here. -/
def createSessionKey (privateKey peerPublicKey : Bytes) : Except Exn Bytes :=
  if privateKey.isEmpty = peerPublicKey.isEmpty then
    .ok (fold32 ((List.range (max privateKey.length peerPublicKey.length)).map fun i =>
      privateKey.getD (i % privateKey.length) 0 ^^^
        peerPublicKey.getD (i % peerPublicKey.length) 0))
  else
    .error (.std "division by zero")

/-- `XORCrypto::encrypt`. -/
def encrypt (message key : Bytes) : Bytes :=
  if key.isEmpty then
    List.replicate message.length 0
  else
    message.mapIdx fun i b => b ^^^ key.getD (i % key.length) 0

/-- `XORCrypto::sign`. -/
def sign (message privateKey : Bytes) : Bytes := sha256_bytes (privateKey ++ message)

/-- `XORCrypto::verify`. -/
def verify (message signature publicKey : Bytes) : Bool :=
  signature = sha256_bytes (publicKey ++ message)

theorem length_fold32 (data : Bytes) : (fold32 data).length = 32 := by
  have hlen : ∀ (xs : List (UInt8 × Nat)) (out : Bytes), out.length = 32 →
      (xs.foldl (fun out x => out.modify (x.2 % 32) (· ^^^ x.1)) out).length = 32 := by
    intro xs
    induction xs with
    | nil => exact fun _ h => h
    | cons x xs ih => exact fun out h => ih _ (by simpa using h)
  exact hlen _ _ (by simp)

theorem createSessionKey_comm (a b : Bytes) : createSessionKey a b = createSessionKey b a := by
  have hmap : (List.range (max a.length b.length)).map (fun i =>
      a.getD (i % a.length) 0 ^^^ b.getD (i % b.length) 0) =
      (List.range (max b.length a.length)).map fun i =>
        b.getD (i % b.length) 0 ^^^ a.getD (i % a.length) 0 := by
    rw [Nat.max_comm a.length]
    exact List.map_congr_left fun i _ => UInt8.xor_comm _ _
  by_cases hempty : a.isEmpty = b.isEmpty
  · rw [createSessionKey, createSessionKey, if_pos hempty, if_pos hempty.symm, hmap]
  · rw [createSessionKey, createSessionKey, if_neg hempty, if_neg fun h => hempty h.symm]

theorem length_of_createSessionKey {a b k : Bytes} (h : createSessionKey a b = .ok k) :
    k.length = 32 := by
  rw [createSessionKey] at h
  split_ifs at h
  exact Except.ok.inj h ▸ length_fold32 _

theorem createSessionKey_ok {a b : Bytes} (h : a.isEmpty = b.isEmpty) :
    ∃ k, createSessionKey a b = .ok k := ⟨_, if_pos h⟩

/-- No generated key is empty. -/
theorem isEmpty_generateKeyPair (rnd : Rand) :
    (generateKeyPair rnd).privateKey.isEmpty = false ∧
      (generateKeyPair rnd).publicKey.isEmpty = false := ⟨rfl, rfl⟩

theorem length_encrypt (message key : Bytes) : (encrypt message key).length = message.length := by
  by_cases hkey : key.isEmpty <;> simp [encrypt, hkey]

/-- Encrypting twice under a non-empty key gives the message back. -/
theorem encrypt_encrypt {key : Bytes} (hkey : key ≠ []) (message : Bytes) :
    encrypt (encrypt message key) key = message := by
  have hne : key.isEmpty = false := by simpa using hkey
  have hxor : ∀ x y : UInt8, x ^^^ y ^^^ y = x := by
    intro x y
    rw [UInt8.xor_assoc, UInt8.xor_self, UInt8.xor_zero]
  simp only [encrypt, hne, Bool.false_eq_true, if_false, List.mapIdx_mapIdx]
  apply List.ext_getElem <;> simp [hxor]

end XORCrypto

/-- `crypto::XORCrypto`. -/
def XORCrypto : ICrypto where
  generateKeyPair := XORCrypto.generateKeyPair
  keyToString := toHex
  stringToKey := fromHex
  createSessionKey := XORCrypto.createSessionKey
  encrypt _ m k := .ok (XORCrypto.encrypt m k)
  decrypt e k := .ok (XORCrypto.encrypt e k)
  sign _ m k := .ok (XORCrypto.sign m k)
  verify := XORCrypto.verify

namespace XORCrypto

theorem signatureLaws : Crypto.XORCrypto.SignatureLaws where
  stringToKey_keyToString := fromHex_toHex
  noNul_keyToString := noNul_toHex
  sign_ok := fun _ _ m => ⟨_, rfl⟩
  verify_sign := by
    rintro kp ⟨rnd, rfl⟩ _ m s hs
    -- both keys of a generated pair are the same secret
    have hsig : sign m (generateKeyPair rnd).privateKey = s := by
      simpa [Crypto.XORCrypto] using hs
    have hkeys : (generateKeyPair rnd).publicKey = (generateKeyPair rnd).privateKey := rfl
    simp [Crypto.XORCrypto, verify, ← hsig, sign, hkeys]

theorem sessionLaws : Crypto.XORCrypto.SessionLaws where
  session_ok := by
    rintro a b ⟨ra, rfl⟩ ⟨rb, rfl⟩
    exact createSessionKey_ok
      ((isEmpty_generateKeyPair ra).1.trans (isEmpty_generateKeyPair rb).2.symm)
  session_symm := by
    -- both keys of a generated pair are the same secret
    rintro a b ⟨ra, rfl⟩ ⟨rb, rfl⟩
    exact createSessionKey_comm (generateKeyPair ra).privateKey (generateKeyPair rb).publicKey
  encrypt_ok := fun _ _ _ _ m => ⟨_, rfl⟩
  decrypt_encrypt := by
    intro a b k _ _ hk rnd m e he
    have hkey : k ≠ [] := by
      have hlen := length_of_createSessionKey hk
      intro hnil
      simp [hnil] at hlen
    have henc : encrypt m k = e := by simpa [Crypto.XORCrypto] using he
    rw [← henc]
    exact congrArg Except.ok (encrypt_encrypt hkey m)

end XORCrypto

/-- The set-up of the program's tests: SHA-256 and the test helpers' cipher. -/
def testEnv : Env where
  SHA256 data := ⟨Sha256.digest data, Sha256.length_digest data⟩
  crypto := Crypto.XORCrypto

end Crypto
end DChat
