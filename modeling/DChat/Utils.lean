import Mathlib.Data.List.Basic
import Mathlib.Data.List.TakeWhile
import Mathlib.Algebra.Group.Int.Defs
import Mathlib.Algebra.GroupWithZero.Nat

/-!
# Utils — bytes, strings, hex, clock readings and exceptions

The helpers of `src/utils` and the few C++ and SQLite conventions the services share.

A `std::string` that comes out of parsed JSON or out of the configuration is valid UTF-8, so
it is a `String` here; message texts, keys and ciphertexts may be any bytes and are `Bytes`.
Two things cut a string at its first NUL: the implicit conversion of a `char*` to a
`std::string`, and the `-1` length given to `sqlite3_bind_text`.  They are `cString` and
`cBytes`.
-/

namespace DChat

/-- `crypto::Bytes`, and any `std::string` whose bytes need not be UTF-8. -/
abbrev Bytes := List UInt8

/-- What a C++ function throws. -/
inductive Exn
  /-- `operator[]` of a const json on a key the object does not have (undefined in nlohmann). -/
  | absentKey (key : String)
  /-- `nlohmann::json::exception`. -/
  | json (what : String)
  /-- Any other `std::exception`. -/
  | std (what : String)
  deriving DecidableEq, Repr

/-- `std::exception::what`. -/
def Exn.what : Exn → String
  | .absentKey key => key
  | .json w => w
  | .std w => w

namespace Utils

/-! ## Strings and bytes -/

/-- `Bytes(s.begin(), s.end())`. -/
def bytesOf (s : String) : Bytes := s.toByteArray.data.toList

theorem bytesOf_injective {s t : String} (h : bytesOf s = bytesOf t) : s = t := by
  have hdata : s.toByteArray.data = t.toByteArray.data := Array.toList_inj.1 h
  exact String.toByteArray_inj.1 (ByteArray.ext hdata)

/-- A `std::string` made from `s.c_str()`: what precedes the first NUL. -/
def cString (s : String) : String := String.ofList (s.toList.takeWhile (· ≠ '\x00'))

/-- `cString` on arbitrary bytes. -/
def cBytes (b : Bytes) : Bytes := b.takeWhile (· ≠ 0)

/-- The string has no NUL character. -/
def NoNul (s : String) : Prop := ∀ c ∈ s.toList, c ≠ '\x00'

instance (s : String) : Decidable (NoNul s) :=
  decidable_of_iff ((s.toList.all fun c => c ≠ '\x00') = true) (by simp [NoNul])

@[simp] theorem cString_of_noNul {s : String} (h : NoNul s) : cString s = s := by
  have htake : s.toList.takeWhile (· ≠ '\x00') = s.toList :=
    List.takeWhile_eq_self_iff.2 (by simpa [NoNul] using h)
  rw [cString, htake, String.ofList_toList]

theorem noNul_cString (s : String) : NoNul (cString s) := by
  intro c hc
  rw [cString, String.toList_ofList] at hc
  simpa using List.mem_takeWhile_imp hc

/-! ## Hex -/

/-- `oss << std::hex << std::setfill('0') << std::setw(2) << static_cast<int>(b)`. -/
def hexByte (b : UInt8) : List Char := (Nat.toDigits 16 b.toNat).leftpad 2 '0'

/-- `utils::toHex`. -/
def toHex (data : Bytes) : String := String.ofList (data.flatMap hexByte)

/-- The value of a hexadecimal digit. -/
def hexValue? (c : UInt8) : Option Nat :=
  if 48 ≤ c ∧ c ≤ 57 then some (c.toNat - 48)
  else if 97 ≤ c ∧ c ≤ 102 then some (c.toNat - 87)
  else if 65 ≤ c ∧ c ≤ 70 then some (c.toNat - 55)
  else none

/-- The digits `strtol` reads in base 16 before it stops. -/
def hexDigits : Bytes → List Nat
  | [] => []
  | c :: cs =>
      match hexValue? c with
      | some d => d :: hexDigits cs
      | none => []

/-- The characters `strtol` skips before a number. -/
def isSpace (c : UInt8) : Bool := c = 32 || (9 ≤ c && c ≤ 13)

/-- `std::stoi(s, nullptr, 16)` on two characters: blanks, a sign, then digits. -/
def stoi16 (s : Bytes) : Except Exn Int :=
  let s := s.dropWhile isSpace
  let (negative, s) :=
    match s with
    | 45 :: rest => (true, rest)
    | 43 :: rest => (false, rest)
    | rest => (false, rest)
  match hexDigits s with
  | [] => .error (.std "stoi")
  | ds =>
      let n : Nat := ds.foldl (fun acc d => 16 * acc + d) 0
      .ok (if negative then -n else n)

/-- The loop of `utils::fromHex`, two characters at a time; an odd last one is ignored. -/
def fromHexBytes : Bytes → Except Exn Bytes
  | a :: b :: rest => do
      let value ← stoi16 [a, b]
      let out ← fromHexBytes rest
      return UInt8.ofNat (value % 256).toNat :: out
  | _ => .ok []

/-- `utils::fromHex`. -/
def fromHex (hex : String) : Except Exn Bytes := fromHexBytes (bytesOf hex)

/-- What a statement about every byte needs: the 256 values. -/
theorem forall_byte {P : UInt8 → Prop} (h : ∀ n : Fin 256, P (UInt8.ofNat n)) (b : UInt8) :
    P b := by
  simpa using h ⟨b.toNat, b.toNat_lt⟩

/-- Two lower-case hexadecimal digits. -/
theorem hexByte_spec (b : UInt8) :
    (hexByte b).length = 2 ∧ ∀ c ∈ hexByte b, c ∈ "0123456789abcdef".toList := by
  have hbyte : (hexByte b).length = 2 ∧
      (hexByte b).all (fun c => decide (c ∈ "0123456789abcdef".toList)) = true :=
    forall_byte (P := fun b => (hexByte b).length = 2 ∧
      (hexByte b).all (fun c => decide (c ∈ "0123456789abcdef".toList)) = true)
      (by decide +kernel) b
  exact ⟨hbyte.1, fun c hc => of_decide_eq_true (List.all_eq_true.1 hbyte.2 c hc)⟩

/-- `stoi` reads a byte back from its two digits. -/
theorem stoi16_hexByte (b : UInt8) :
    stoi16 ((hexByte b).map fun c => UInt8.ofNat c.toNat) = .ok b.toNat :=
  forall_byte (P := fun b => stoi16 ((hexByte b).map fun c => UInt8.ofNat c.toNat) =
    .ok b.toNat) (by decide +kernel) b

theorem bytesOf_ofList (l : List Char) :
    bytesOf (String.ofList l) = l.flatMap String.utf8EncodeChar := by
  simp [bytesOf, String.toByteArray_ofList, List.utf8Encode]

/-- An ASCII string has one byte for each character. -/
theorem bytesOf_ofList_ascii {l : List Char} (h : ∀ c ∈ l, c.toNat ≤ 127) :
    bytesOf (String.ofList l) = l.map fun c => UInt8.ofNat c.toNat := by
  rw [bytesOf_ofList]
  induction l with
  | nil => rfl
  | cons c cs ih =>
      have hc : String.utf8EncodeChar c = [UInt8.ofNat c.toNat] :=
        if_pos (h c (by simp))
      have hcs := ih fun d hd => h d (by simp [hd])
      rw [List.flatMap_cons, hc, hcs, List.map_cons, List.singleton_append]

theorem mem_toHex {data : Bytes} {c : Char} (h : c ∈ (toHex data).toList) :
    c ∈ "0123456789abcdef".toList := by
  rw [toHex, String.toList_ofList] at h
  obtain ⟨b, _, hb⟩ := List.mem_flatMap.1 h
  exact (hexByte_spec b).2 c hb

theorem length_toHex (data : Bytes) : (toHex data).toList.length = 2 * data.length := by
  rw [toHex, String.toList_ofList]
  induction data with
  | nil => rfl
  | cons b bs ih =>
      simp only [List.flatMap_cons, List.length_append, List.length_cons, (hexByte_spec b).1, ih]
      omega

theorem noNul_toHex (data : Bytes) : NoNul (toHex data) := by
  intro c hc hnul
  have hmem := mem_toHex hc
  rw [hnul] at hmem
  exact absurd hmem (by decide)

theorem ascii_toHex (data : Bytes) : ∀ c ∈ data.flatMap hexByte, c.toNat ≤ 127 := by
  intro c hc
  have hhex : c ∈ (toHex data).toList := by
    rw [toHex, String.toList_ofList]
    exact hc
  have hmem : c ∈ "0123456789abcdef".toList := mem_toHex hhex
  have hdigits : ("0123456789abcdef".toList.all fun d => decide (d.toNat ≤ 127)) = true := by
    decide
  exact of_decide_eq_true (List.all_eq_true.1 hdigits c hmem)

/-- A hex string has two bytes for each byte. -/
theorem length_bytesOf_toHex (data : Bytes) : (bytesOf (toHex data)).length = 2 * data.length := by
  have hlength := length_toHex data
  rw [toHex, String.toList_ofList] at hlength
  rw [toHex, bytesOf_ofList_ascii (ascii_toHex data), List.length_map, hlength]

/-- `fromHex` inverts `toHex`. -/
theorem fromHex_toHex (data : Bytes) : fromHex (toHex data) = .ok data := by
  rw [fromHex, toHex, bytesOf_ofList_ascii (ascii_toHex data)]
  induction data with
  | nil => rfl
  | cons b bs ih =>
      obtain ⟨x, y, hxy⟩ := List.length_eq_two.1 (hexByte_spec b).1
      have hb : stoi16 [UInt8.ofNat x.toNat, UInt8.ofNat y.toNat] = .ok b.toNat := by
        have h := stoi16_hexByte b
        rwa [hxy] at h
      have hlt : ((b.toNat : Int) % 256).toNat = b.toNat := by
        have := b.toNat_lt
        omega
      simp only [List.flatMap_cons, hxy, List.cons_append, List.nil_append, List.map_cons,
        fromHexBytes, hb, ih]
      simp [hlt, bind, Except.bind, pure, Except.pure]

theorem toHex_injective : Function.Injective toHex := by
  intro x y h
  have hread : fromHex (toHex x) = fromHex (toHex y) := congrArg fromHex h
  rw [fromHex_toHex, fromHex_toHex] at hread
  exact Except.ok.inj hread

/-! ## Digests -/

/-- `unsigned char digest[SHA256_DIGEST_LENGTH]`. -/
structure Digest where
  bytes : Bytes
  length_eq : bytes.length = 32

/-! ## Clock readings -/

/-- A reading of `std::chrono::system_clock` in milliseconds.  The clock counts ticks of at
most 100 ns in a signed 64-bit number, so the milliseconds are far from overflow. -/
structure ClockReading where
  millis : Nat
  representable : millis < 2 ^ 63 / 10 ^ 4

/-- `utils::getTimestamp`. -/
def getTimestamp (now : ClockReading) : UInt64 := UInt64.ofNat now.millis

@[simp] theorem toNat_getTimestamp (now : ClockReading) :
    (getTimestamp now).toNat = now.millis := by
  have h := now.representable
  simp only [getTimestamp, UInt64.toNat_ofNat']
  omega

theorem getTimestamp_lt (now : ClockReading) : (getTimestamp now).toNat < 2 ^ 63 / 10 ^ 4 := by
  rw [toNat_getTimestamp]
  exact now.representable

/-- Five minutes ahead of a reading is far from overflow too. -/
theorem toNat_getTimestamp_add (now : ClockReading) :
    (getTimestamp now + 300000).toNat = now.millis + 300000 := by
  have hnow := now.representable
  have hlater : (300000 : UInt64).toNat = 300000 := rfl
  rw [UInt64.toNat_add, toNat_getTimestamp, hlater]
  omega

/-! ## What a column keeps

A TEXT column keeps what `sqlite3_bind_text` with length `-1` was given: a string without NUL.
An INTEGER column keeps the integer of a decimal text when it fits 64 signed bits, else the
nearest double. -/

structure DbText where
  text : String
  noNul : NoNul text
  deriving DecidableEq, Repr

namespace DbText

def bind (s : String) : DbText := ⟨cString s, noNul_cString s⟩

@[simp] theorem text_bind (s : String) : (bind s).text = cString s := rfl

@[ext] theorem ext {a b : DbText} (h : a.text = b.text) : a = b := by
  cases a
  cases b
  cases h
  rfl

theorem eq_bind_iff {a : DbText} {s : String} : a = bind s ↔ a.text = cString s := by
  constructor
  · intro h
    rw [h, text_bind]
  · intro h
    exact ext h

end DbText

inductive SqlNumber
  | integer (n : Fin (2 ^ 63))
  | real (n : Nat)
  deriving DecidableEq, Repr

namespace SqlNumber

/-- The double nearest to an `n` between `2^63` and `2^64`, where doubles are 2048 apart. -/
def nearestDouble (n : Nat) : Nat :=
  if n % 2048 < 1024 ∨ (n % 2048 = 1024 ∧ n / 2048 % 2 = 0) then
    n / 2048 * 2048
  else
    (n / 2048 + 1) * 2048

/-- `sqlite3_bind_text` of `std::to_string(t)`. -/
def ofText (t : UInt64) : SqlNumber :=
  if h : t.toNat < 2 ^ 63 then .integer ⟨t.toNat, h⟩ else .real (nearestDouble t.toNat)

/-- The first digit of `n` written with 15 significant digits, as in `9.22337203685478e+18`. -/
def leadingDigit (n : Nat) : Nat :=
  if 10 ^ 19 ≤ n then 1
  else if 10 ^ 15 ≤ (n + 5000) / 10 ^ 4 then 1
  else (n + 5000) / 10 ^ 4 / 10 ^ 14

/-- `std::stoull` of the column's text; it stops at the decimal point of a real. -/
def stoull : SqlNumber → UInt64
  | .integer n => UInt64.ofNat n
  | .real n => UInt64.ofNat (leadingDigit n)

/-- A number below `2^63` comes back as it was written. -/
theorem stoull_ofText {t : UInt64} (h : t.toNat < 2 ^ 63) : (ofText t).stoull = t := by
  rw [ofText, dif_pos h]
  simp [stoull]

theorem leadingDigit_lt (n : Nat) : leadingDigit n < 10 := by
  simp only [leadingDigit]
  split
  · omega
  · split <;> omega

/-- Whatever is read from a column is below `2^63`. -/
theorem toNat_stoull_lt (x : SqlNumber) : x.stoull.toNat < 2 ^ 63 := by
  cases x with
  | integer n =>
      have hn := n.isLt
      simp only [stoull, UInt64.toNat_ofNat']
      omega
  | real n =>
      have hn := leadingDigit_lt n
      simp only [stoull, UInt64.toNat_ofNat']
      omega

end SqlNumber

end Utils

end DChat
