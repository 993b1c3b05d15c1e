import DChat.Json
import Mathlib.Data.List.Sort

/-!
# Dump — the text of a value

`dump()` of nlohmann writes the compact form: no blanks, the members of an object in the order of
`std::map`, a string with its quotes, backslashes and control characters escaped and everything
else as it is.  So a text has no NUL, and `dumpLen` is its length.
-/

namespace DChat
namespace Json

open Utils

/-! ## Characters and numbers -/

/-- What `dump_escaped` writes for a character. -/
def escaped (c : Char) : Bytes :=
  if c = '"' ∨ c = '\\' then [92, UInt8.ofNat c.toNat]
  else if c.toNat < 32 then
    match c.toNat with
    | 8 => [92, 98]
    | 9 => [92, 116]
    | 10 => [92, 110]
    | 12 => [92, 102]
    | 13 => [92, 114]
    -- `\u00` and two digits
    | n => 92 :: 117 :: 48 :: 48 :: (hexByte (UInt8.ofNat n)).map fun d => UInt8.ofNat d.toNat
  else String.utf8EncodeChar c

/-- A string with its quotes. -/
def dumpString (s : String) : Bytes := 34 :: (s.toList.flatMap escaped ++ [34])

/-- `dump_integer` of a number without a sign. -/
def decimal (n : Nat) : Bytes := (Nat.toDigits 10 n).map fun d => UInt8.ofNat d.toNat

theorem length_bytesOf (s : String) : (bytesOf s).length = s.utf8ByteSize := rfl

/-- The number of bytes does not depend on which control character is escaped, but on how. -/
theorem length_escaped (c : Char) : (escaped c).length = escapedLen c := by
  rw [escaped, escapedLen]
  split_ifs with hquote hcontrol hshort
  · rfl
  · rcases hshort with h | h | h | h | h <;> rw [h] <;> rfl
  · have hlong : c.toNat ≠ 8 ∧ c.toNat ≠ 9 ∧ c.toNat ≠ 10 ∧ c.toNat ≠ 12 ∧ c.toNat ≠ 13 := by
      simpa [not_or] using hshort
    split
    · omega
    · omega
    · omega
    · omega
    · omega
    · simp [(hexByte_spec _).1]
  · exact String.length_utf8EncodeChar c

theorem length_dumpString (s : String) : (dumpString s).length = stringLen s := by
  have hsum : (s.toList.flatMap escaped).length = (s.toList.map escapedLen).sum := by
    rw [List.length_flatMap]
    simp only [length_escaped]
  simp only [dumpString, List.length_cons, List.length_append, List.length_nil, hsum, stringLen]

/-- Only the character NUL has a byte 0 in UTF-8. -/
theorem zero_notMem_utf8EncodeChar {c : Char} (h : c ≠ '\x00') :
    (0 : UInt8) ∉ String.utf8EncodeChar c := by
  have hval : c.val.toNat ≠ 0 := by
    intro hzero
    exact h (Char.ext (UInt32.toNat_inj.1 hzero))
  -- the bytes of a longer encoding have their highest bit set
  have hbyte : ∀ n : Nat, n % 256 ≠ 0 → (0 : UInt8) ≠ UInt8.ofNat n := by
    intro n hn heq
    have htoNat := congrArg UInt8.toNat heq
    rw [UInt8.toNat_ofNat'] at htoNat
    exact hn htoNat.symm
  unfold String.utf8EncodeChar
  extract_lets v
  split_ifs
  all_goals
    simp only [List.mem_cons, List.not_mem_nil, or_false, not_or]
  · exact hbyte _ (by omega)
  · exact ⟨hbyte _ (by omega), hbyte _ (by omega)⟩
  · exact ⟨hbyte _ (by omega), hbyte _ (by omega), hbyte _ (by omega)⟩
  · exact ⟨hbyte _ (by omega), hbyte _ (by omega), hbyte _ (by omega), hbyte _ (by omega)⟩

theorem zero_notMem_bytesOf {s : String} (h : NoNul s) : (0 : UInt8) ∉ bytesOf s := by
  have hs : bytesOf s = s.toList.flatMap String.utf8EncodeChar := by
    rw [← bytesOf_ofList, String.ofList_toList]
  rw [hs, List.mem_flatMap]
  rintro ⟨c, hc, hzero⟩
  exact zero_notMem_utf8EncodeChar (h c hc) hzero

theorem zero_notMem_hexByte (b : UInt8) :
    (0 : UInt8) ∉ (hexByte b).map fun d => UInt8.ofNat d.toNat := by
  revert b
  exact forall_byte (P := fun b => (0 : UInt8) ∉ (hexByte b).map fun d => UInt8.ofNat d.toNat)
    (by decide +kernel)

theorem zero_notMem_escaped (c : Char) : (0 : UInt8) ∉ escaped c := by
  rw [escaped]
  split_ifs with hquote hcontrol
  · rcases hquote with rfl | rfl <;> decide
  · split
    · decide
    · decide
    · decide
    · decide
    · decide
    · simpa using zero_notMem_hexByte _
  · apply zero_notMem_utf8EncodeChar
    rintro rfl
    exact hcontrol (by decide)

theorem zero_notMem_dumpString (s : String) : (0 : UInt8) ∉ dumpString s := by
  simp [dumpString, zero_notMem_escaped]

theorem zero_notMem_decimal (n : Nat) : (0 : UInt8) ∉ decimal n := by
  rw [decimal, List.mem_map]
  rintro ⟨d, hd, hzero⟩
  have hdigit := Nat.isDigit_of_mem_toDigits (by decide) (by decide) hd
  have hrange : 48 ≤ d.toNat ∧ d.toNat ≤ 57 := by
    simpa [Char.isDigit, UInt32.le_iff_toNat_le] using hdigit
  have htoNat := congrArg UInt8.toNat hzero
  rw [UInt8.toNat_ofNat'] at htoNat
  change d.toNat % 256 = 0 at htoNat
  omega

/-! ## Values -/

/-- Parts with commas between them. -/
def commas : List Bytes → Bytes
  | [] => []
  | [part] => part
  | part :: next :: parts => part ++ 44 :: commas (next :: parts)

/-- The order of `std::map`: bytes from the left, a prefix first. -/
def keyLe (a b : Bytes × Bytes) : Prop := List.lex b.1 a.1 (fun x y => decide (x < y)) = false

instance : DecidableRel keyLe := fun a b =>
  inferInstanceAs (Decidable (List.lex b.1 a.1 (fun x y => decide (x < y)) = false))

/-- The members of an object by their keys. -/
def inOrder (members : List (Bytes × Bytes)) : List Bytes :=
  (members.insertionSort keyLe).map Prod.snd

mutual

/-- `dump()`. -/
def dump : Json → Bytes
  | .null => bytesOf "null"
  | .boolean b => bytesOf (if b then "true" else "false")
  | .unsigned n => decimal n.toNat
  | .integer n => 45 :: decimal n.natAbs
  | .float _ text => bytesOf text
  | .string s => dumpString s
  | .array xs => 91 :: (commas (dumpElements xs) ++ [93])
  | .object kvs => 123 :: (commas (inOrder (dumpMembers kvs)) ++ [125])

/-- The elements of an array. -/
def dumpElements : List Json → List Bytes
  | [] => []
  | x :: xs => dump x :: dumpElements xs

/-- The members of an object with their keys. -/
def dumpMembers : List (String × Json) → List (Bytes × Bytes)
  | [] => []
  | (k, v) :: rest => (bytesOf k, dumpString k ++ 58 :: dump v) :: dumpMembers rest

end

/-- A peer of the tests, with its keys in order. -/
example : dump (.object [("port", .unsigned 8001), ("host", .string "a\nb")]) =
    bytesOf "\x7b\"host\":\"a\\nb\",\"port\":8001\x7d" := by decide

/-! ## Lengths -/

theorem length_commas (parts : List Bytes) :
    (commas parts).length = (parts.map List.length).sum + (parts.length - 1) := by
  induction parts with
  | nil => rfl
  | cons part parts ih =>
      cases parts with
      | nil => simp [commas]
      | cons next parts =>
          rw [commas, List.length_append, List.length_cons, ih]
          simp only [List.map_cons, List.sum_cons, List.length_cons]
          omega

theorem length_inOrder (members : List (Bytes × Bytes)) :
    ((inOrder members).map List.length).sum = (members.map fun m => m.2.length).sum ∧
      (inOrder members).length = members.length := by
  have hperm := (List.perm_insertionSort keyLe members).map Prod.snd
  constructor
  · rw [inOrder, (hperm.map List.length).sum_nat, List.map_map]
    rfl
  · rw [inOrder, hperm.length_eq, List.length_map]

theorem length_decimal (n : Nat) : (decimal n).length = (Nat.toDigits 10 n).length :=
  List.length_map _

theorem length_dumpElements (xs : List Json) : (dumpElements xs).length = xs.length := by
  induction xs with
  | nil => rfl
  | cons x xs ih => rw [dumpElements, List.length_cons, List.length_cons, ih]

theorem length_dumpMembers (kvs : List (String × Json)) :
    (dumpMembers kvs).length = kvs.length := by
  induction kvs with
  | nil => rfl
  | cons kv kvs ih => rw [dumpMembers, List.length_cons, List.length_cons, ih]

mutual

/-- The length of a text is what the sockets check. -/
theorem length_dump : ∀ j : Json, (dump j).length = dumpLen j
  | .null => rfl
  | .boolean b => by cases b <;> rfl
  | .unsigned n => by rw [dump, dumpLen, length_decimal]
  | .integer n => by rw [dump, dumpLen, List.length_cons, length_decimal]
  | .float q text => by rw [dump, dumpLen, length_bytesOf]
  | .string s => by rw [dump, dumpLen, length_dumpString]
  | .array xs => by
      rw [dump, dumpLen, List.length_cons, List.length_append, length_commas, sum_dumpElements,
        length_dumpElements]
      rfl
  | .object kvs => by
      have horder := length_inOrder (dumpMembers kvs)
      rw [dump, dumpLen, List.length_cons, List.length_append, length_commas, horder.1, horder.2,
        sum_dumpMembers, length_dumpMembers]
      rfl

theorem sum_dumpElements : ∀ xs : List Json,
    ((dumpElements xs).map List.length).sum = elementsLen xs
  | [] => rfl
  | x :: xs => by
      rw [dumpElements, elementsLen, List.map_cons, List.sum_cons, length_dump x,
        sum_dumpElements xs]

theorem sum_dumpMembers : ∀ kvs : List (String × Json),
    ((dumpMembers kvs).map fun m => m.2.length).sum = membersLen kvs
  | [] => rfl
  | (k, v) :: kvs => by
      rw [dumpMembers, membersLen, List.map_cons, List.sum_cons, List.length_append,
        List.length_cons, length_dumpString, length_dump v, sum_dumpMembers kvs]
      omega

end

/-! ## No NUL -/

mutual

/-- The texts of floats are free of NUL, as those of `dump_float` are. -/
def PlainFloats : Json → Prop
  | .float _ text => NoNul text
  | .array xs => PlainElements xs
  | .object kvs => PlainMembers kvs
  | _ => True

def PlainElements : List Json → Prop
  | [] => True
  | x :: xs => PlainFloats x ∧ PlainElements xs

def PlainMembers : List (String × Json) → Prop
  | [] => True
  | (_, v) :: rest => PlainFloats v ∧ PlainMembers rest

end

theorem zero_notMem_commas {parts : List Bytes} (h : ∀ part ∈ parts, (0 : UInt8) ∉ part) :
    (0 : UInt8) ∉ commas parts := by
  induction parts with
  | nil => exact List.not_mem_nil
  | cons part parts ih =>
      have hpart := h part List.mem_cons_self
      have hparts := ih fun q hq => h q (List.mem_cons_of_mem _ hq)
      cases parts with
      | nil => exact hpart
      | cons next parts =>
          rw [commas, List.mem_append, List.mem_cons, not_or, not_or]
          exact ⟨hpart, by decide, hparts⟩

theorem zero_notMem_inOrder {members : List (Bytes × Bytes)}
    (h : ∀ m ∈ members, (0 : UInt8) ∉ m.2) : ∀ part ∈ inOrder members, (0 : UInt8) ∉ part := by
  intro part hpart
  rcases List.mem_map.1 hpart with ⟨m, hm, rfl⟩
  exact h m ((List.mem_insertionSort keyLe).1 hm)

mutual

/-- A text never has the byte at which a C string ends. -/
theorem zero_notMem_dump : ∀ j : Json, PlainFloats j → (0 : UInt8) ∉ dump j
  | .null, _ => by decide
  | .boolean b, _ => by cases b <;> decide
  | .unsigned n, _ => zero_notMem_decimal n.toNat
  | .integer n, _ => by
      rw [dump, List.mem_cons, not_or]
      exact ⟨by decide, zero_notMem_decimal n.natAbs⟩
  | .float _ text, h => zero_notMem_bytesOf h
  | .string s, _ => zero_notMem_dumpString s
  | .array xs, h => by
      have helements := zero_notMem_commas (zero_notMem_dumpElements xs h)
      rw [dump, List.mem_cons, List.mem_append, List.mem_singleton, not_or, not_or]
      exact ⟨by decide, helements, by decide⟩
  | .object kvs, h => by
      have hmembers := zero_notMem_commas (zero_notMem_inOrder (zero_notMem_dumpMembers kvs h))
      rw [dump, List.mem_cons, List.mem_append, List.mem_singleton, not_or, not_or]
      exact ⟨by decide, hmembers, by decide⟩

theorem zero_notMem_dumpElements : ∀ xs : List Json, PlainElements xs →
    ∀ part ∈ dumpElements xs, (0 : UInt8) ∉ part
  | [], _ => by simp [dumpElements]
  | x :: xs, h => by
      rw [dumpElements, List.forall_mem_cons]
      exact ⟨zero_notMem_dump x h.1, zero_notMem_dumpElements xs h.2⟩

theorem zero_notMem_dumpMembers : ∀ kvs : List (String × Json), PlainMembers kvs →
    ∀ m ∈ dumpMembers kvs, (0 : UInt8) ∉ m.2
  | [], _ => by simp [dumpMembers]
  | (k, v) :: kvs, h => by
      rw [dumpMembers, List.forall_mem_cons]
      refine ⟨?_, zero_notMem_dumpMembers kvs h.2⟩
      rw [List.mem_append, List.mem_cons, not_or, not_or]
      exact ⟨zero_notMem_dumpString k, by decide, zero_notMem_dump v h.1⟩

end

end Json
end DChat
