import DChat.Utils

/-!
# Decimal — numbers in text

`std::stoi` and `std::stoul` read a number at the beginning of a string, after white space and a
sign, and pass over whatever follows it.  They throw if there is no digit and if the number does not
fit an `int` or an `unsigned long`; both have 32 bits on Windows.
-/

namespace DChat
namespace Utils

/-- `isdigit`. -/
def isDigit (c : UInt8) : Bool := 48 ≤ c && c ≤ 57

/-- The value of a string of digits. -/
def decimalValue (digits : Bytes) : Nat := digits.foldl (fun acc d => 10 * acc + (d.toNat - 48)) 0

/-- A sign in front of a number: whether it is a minus, and what follows. -/
def splitSign : Bytes → Bool × Bytes
  | 45 :: rest => (true, rest)
  | 43 :: rest => (false, rest)
  | rest => (false, rest)

/-- What `strtol` and `strtoul` read in base 10: whether there is a minus, and the digits. -/
def readDecimal (s : Bytes) : Option (Bool × Nat) :=
  let (negative, rest) := splitSign (s.dropWhile isSpace)
  match rest.takeWhile isDigit with
  | [] => none
  | digits => some (negative, decimalValue digits)

/-- `std::stoi`. -/
def stoi (s : Bytes) : Except Exn Int :=
  match readDecimal s with
  | none => .error (.std "stoi")
  | some (negative, n) =>
      let value : Int := if negative then -n else n
      if -2 ^ 31 ≤ value ∧ value < 2 ^ 31 then .ok value else .error (.std "stoi")

/-- `std::stoul`; a minus negates in 32 bits. -/
def stoul (s : Bytes) : Except Exn UInt32 :=
  match readDecimal s with
  | none => .error (.std "stoul")
  | some (negative, n) =>
      if n < 2 ^ 32 then
        .ok (if negative then -UInt32.ofNat n else UInt32.ofNat n)
      else
        .error (.std "stoul")

/-- The integer that a string is: white space, a sign and digits to the end. -/
def writtenInt (s : Bytes) : Option Int :=
  let (negative, digits) := splitSign (s.dropWhile isSpace)
  if digits ≠ [] ∧ digits.all isDigit then
    some (if negative then -decimalValue digits else decimalValue digits)
  else
    none

/-- A cast to `unsigned short` keeps the low 16 bits. -/
theorem toNat_ofInt16 (x : Int) : (UInt16.ofInt x).toNat = (x % 2 ^ 16).toNat := by
  rw [UInt16.ofInt, UInt16.toNat_ofNat']
  omega

/-! ## Strings of digits -/

theorem isSpace_of_isDigit {c : UInt8} (h : isDigit c = true) : isSpace c = false := by
  revert h
  exact forall_byte (P := fun c => isDigit c = true → isSpace c = false) (by decide +kernel) c

theorem splitSign_of_isDigit {c : UInt8} (h : isDigit c = true) (rest : Bytes) :
    splitSign (c :: rest) = (false, c :: rest) := by
  unfold splitSign
  split
  · rename_i heq
    cases heq
    exact absurd h (by decide)
  · rename_i heq
    cases heq
    exact absurd h (by decide)
  · rfl

/-- Digits are no white space and no sign. -/
theorem splitSign_digits {digits : Bytes} (hne : digits ≠ []) (h : digits.all isDigit = true) :
    splitSign (digits.dropWhile isSpace) = (false, digits) := by
  cases digits with
  | nil => exact absurd rfl hne
  | cons c rest =>
      have hc : isDigit c = true := List.all_eq_true.1 h c List.mem_cons_self
      rw [List.dropWhile_cons_of_neg (by simp [isSpace_of_isDigit hc]), splitSign_of_isDigit hc]

theorem readDecimal_digits {digits : Bytes} (hne : digits ≠ []) (h : digits.all isDigit = true) :
    readDecimal digits = some (false, decimalValue digits) := by
  have htake : digits.takeWhile isDigit = digits :=
    List.takeWhile_eq_self_iff.2 (List.all_eq_true.1 h)
  rw [readDecimal, splitSign_digits hne h]
  cases digits with
  | nil => exact absurd rfl hne
  | cons c rest => simp only [htake]

theorem writtenInt_digits {digits : Bytes} (hne : digits ≠ []) (h : digits.all isDigit = true) :
    writtenInt digits = some (decimalValue digits : Int) := by
  rw [writtenInt, splitSign_digits hne h]
  simp only [hne, h, ne_eq, not_false_eq_true, and_self, if_true, Bool.false_eq_true, if_false]

/-- `stoi` refuses digits only from `2^31` on. -/
theorem stoi_digits {digits : Bytes} (hne : digits ≠ []) (h : digits.all isDigit = true) :
    stoi digits = if decimalValue digits < 2 ^ 31 then .ok (decimalValue digits : Int)
      else .error (.std "stoi") := by
  rw [stoi, readDecimal_digits hne h]
  simp only [Bool.false_eq_true, if_false]
  split_ifs <;> first | rfl | omega

end Utils
end DChat
