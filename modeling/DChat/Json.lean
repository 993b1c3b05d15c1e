import DChat.Utils
import Mathlib.Data.Rat.Defs

/-!
# Json — the part of `nlohmann::json` the services use

A value is what `json::parse` gives: strings are UTF-8, non-negative integers are
`number_unsigned`, negative ones `number_integer`, everything with a fraction or an exponent
`number_float`.  Objects are lists of pairs; the order of the pairs is never looked at.

Reading follows the library: the const `operator[]` throws on a non-object and is undefined on
an absent key (`Exn.absentKey`), `get<T>` of an arithmetic type throws on a non-number and is a
plain cast otherwise.  Values stand for their own dump, since `parse` inverts `dump`; only the
length of the dump is kept (`dumpLen`), which the socket layer checks.
-/

namespace DChat

open Utils

/-- A parsed JSON value.  A float carries the text that `dump` writes for it. -/
inductive Json
  | null
  | boolean (b : Bool)
  | unsigned (n : UInt64)
  | integer (n : Int)
  | float (q : Rat) (text : String)
  | string (s : String)
  | array (xs : List Json)
  | object (kvs : List (String × Json))

namespace Json

/-- `type_name()`. -/
def typeName : Json → String
  | .null => "null"
  | .boolean _ => "boolean"
  | .unsigned _ => "number"
  | .integer _ => "number"
  | .float _ _ => "number"
  | .string _ => "string"
  | .array _ => "array"
  | .object _ => "object"

/-- `type_error` 302, thrown by `get<T>`. -/
def typeError (expected : String) (j : Json) : Exn :=
  .json ("[json.exception.type_error.302] type must be " ++ expected ++ ", but is " ++ typeName j)

/-- The const `operator[]` with a key. -/
def field (j : Json) (key : String) : Except Exn Json :=
  match j with
  | .object kvs =>
      match kvs.lookup key with
      | some v => .ok v
      | none => .error (.absentKey key)
  | _ => .error (.json ("[json.exception.type_error.305] cannot use operator[] with a string " ++
      "argument with " ++ typeName j))

/-- `contains`, false on a non-object. -/
def contains (j : Json) (key : String) : Bool :=
  match j with
  | .object kvs => (kvs.lookup key).isSome
  | _ => false

/-- `j == s` for a string `s`. -/
def isString (j : Json) (s : String) : Bool :=
  match j with
  | .string t => t = s
  | _ => false

/-- `get<std::string>()`. -/
def getString (j : Json) : Except Exn String :=
  match j with
  | .string s => .ok s
  | _ => .error (typeError "string" j)

/-- The integer part of a float, by which `static_cast` of a `double` starts. -/
def truncate (q : Rat) : Int := q.num.tdiv q.den

/-- The value a `static_cast` of a number starts from; `none` on a non-number. -/
def number? : Json → Option Int
  | .unsigned n => some n.toNat
  | .integer n => some n
  | .float q _ => some (truncate q)
  | _ => none

/-- `get<T>()` for an unsigned `T` of `w` bits other than `uint64_t`: booleans count as numbers
and every number is cast. -/
def getUnsigned (w : Nat) (j : Json) : Except Exn Nat :=
  match j with
  | .boolean b => .ok (if b then 1 else 0)
  | _ =>
      match j.number? with
      | some n => .ok (n % (2 ^ w : Nat)).toNat
      | none => .error (typeError "number" j)

/-- `get<unsigned short>()`. -/
def getUInt16 (j : Json) : Except Exn UInt16 := UInt16.ofNat <$> getUnsigned 16 j

/-- `get<unsigned int>()`. -/
def getUInt32 (j : Json) : Except Exn UInt32 := UInt32.ofNat <$> getUnsigned 32 j

/-- `get<uint64_t>()`, the library's own `number_unsigned_t`: booleans are refused. -/
def getUInt64 (j : Json) : Except Exn UInt64 :=
  match j.number? with
  | some n => .ok (UInt64.ofNat (n % (2 ^ 64 : Nat)).toNat)
  | none => .error (typeError "number" j)

/-- `is_array` and the elements. -/
def array? : Json → Option (List Json)
  | .array xs => some xs
  | _ => none

/-- Assign a key in a list of pairs. -/
def assign (key : String) (v : Json) : List (String × Json) → List (String × Json)
  | [] => [(key, v)]
  | (k, w) :: rest => if k = key then (key, v) :: rest else (k, w) :: assign key v rest

/-- `j[key] = v` on an object, or on a fresh value that becomes one. -/
def set (j : Json) (key : String) (v : Json) : Json :=
  match j with
  | .object kvs => .object (assign key v kvs)
  | _ => .object [(key, v)]

/-! ## Reading what was written -/

theorem field_cons (k key : String) (v : Json) (kvs : List (String × Json)) :
    (Json.object ((k, v) :: kvs)).field key =
      if key = k then .ok v else (Json.object kvs).field key := by
  by_cases h : key = k
  · simp [field, h]
  · simp [field, List.lookup_cons, beq_false_of_ne h, h]

@[simp] theorem getString_string (s : String) : getString (.string s) = .ok s := rfl

/-- Only a string is read as one. -/
theorem getString_eq_ok {w : Json} {s : String} : w.getString = .ok s ↔ w = .string s := by
  cases w <;> simp [getString]

@[simp] theorem getUInt64_unsigned (n : UInt64) : getUInt64 (.unsigned n) = .ok n := by
  have h := n.toNat_lt
  have hmod : ((n.toNat : Int) % (2 ^ 64 : Nat)).toNat = n.toNat := by omega
  simp only [getUInt64, number?, hmod, UInt64.ofNat_toNat]

@[simp] theorem getUInt16_unsigned (n : UInt16) :
    getUInt16 (.unsigned n.toUInt64) = .ok n := by
  have h := n.toNat_lt
  have hmod : ((n.toNat : Int) % (2 ^ 16 : Nat)).toNat = n.toNat := by omega
  simp only [getUInt16, getUnsigned, number?, UInt16.toNat_toUInt64, hmod]
  simp [Functor.map, Except.map]

@[simp] theorem getUInt32_unsigned (n : UInt32) :
    getUInt32 (.unsigned n.toUInt64) = .ok n := by
  have h := n.toNat_lt
  have hmod : ((n.toNat : Int) % (2 ^ 32 : Nat)).toNat = n.toNat := by omega
  simp only [getUInt32, getUnsigned, number?, UInt32.toNat_toUInt64, hmod]
  simp [Functor.map, Except.map]

/-! ## The length of a dump -/

/-- Bytes of one character in a dumped string. -/
def escapedLen (c : Char) : Nat :=
  if c = '"' ∨ c = '\\' then 2
  else if c.toNat < 32 then
    (if c.toNat = 8 ∨ c.toNat = 9 ∨ c.toNat = 10 ∨ c.toNat = 12 ∨ c.toNat = 13 then 2 else 6)
  else c.utf8Size

/-- Bytes of a dumped string, quotes included. -/
def stringLen (s : String) : Nat := (s.toList.map escapedLen).sum + 2

mutual

/-- `dump().length()`: the compact form, no blanks. -/
def dumpLen : Json → Nat
  | .null => 4
  | .boolean b => if b then 4 else 5
  | .unsigned n => (Nat.toDigits 10 n.toNat).length
  | .integer n => (Nat.toDigits 10 n.natAbs).length + 1
  | .float _ text => text.utf8ByteSize
  | .string s => stringLen s
  | .array xs => elementsLen xs + (xs.length - 1) + 2
  | .object kvs => membersLen kvs + (kvs.length - 1) + 2

/-- The elements of an array, without the commas. -/
def elementsLen : List Json → Nat
  | [] => 0
  | x :: xs => dumpLen x + elementsLen xs

/-- The members of an object with their colons, without the commas. -/
def membersLen : List (String × Json) → Nat
  | [] => 0
  | (k, v) :: rest => stringLen k + 1 + dumpLen v + membersLen rest

end

end Json

end DChat
