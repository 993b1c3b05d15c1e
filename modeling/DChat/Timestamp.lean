import DChat.Utils

/-!
# Timestamp — times as text

`timestampToString` turns milliseconds into ticks of the system clock, these into seconds, and the
seconds into a date and a time of day where the clock stands.  What it writes consists of digits,
dashes, a blank and colons.
-/

namespace DChat
namespace Utils

/-- What `timestampToString` takes from the platform: the ticks of `system_clock` in a millisecond
(a million with `g++`, ten thousand with MSVC), and how many seconds local time is ahead of UTC at a
`time_t`. -/
structure LocalClock where
  ticks : Int64
  ahead : Int → Int

/-- The fields of `std::tm` in the format. -/
structure Tm where
  year : Int
  month : Nat
  day : Nat
  hour : Nat
  minute : Nat
  second : Nat
  deriving DecidableEq, Repr

/-- `system_clock::to_time_t` of a number of milliseconds.  The cast to seconds cuts towards
zero. -/
def to_time_t (clock : LocalClock) (timestamp : UInt64) : Int :=
  (timestamp.toInt64 * clock.ticks / (1000 * clock.ticks)).toInt

/-- The Gregorian date, from the number of days since 1970-01-01. -/
def dateOfDays (days : Int) : Int × Nat × Nat :=
  -- a year starts in March here, so that the leap day is its last one; 400 years are 146097 days
  let era := (days + 719468) / 146097
  let day := ((days + 719468) % 146097).toNat
  let year := (day - day / 1460 + day / 36524 - day / 146096) / 365
  let dayOfYear := day - (365 * year + year / 4 - year / 100)
  -- five months from March on, or from August on, are 153 days
  let month := (5 * dayOfYear + 2) / 153
  let dayOfMonth := dayOfYear - (153 * month + 2) / 5 + 1
  if month < 10 then
    (era * 400 + year, month + 3, dayOfMonth)
  else
    (era * 400 + year + 1, month - 9, dayOfMonth)

/-- `std::localtime`. -/
def localtime (clock : LocalClock) (time : Int) : Tm :=
  let seconds := time + clock.ahead time
  let date := dateOfDays (seconds / 86400)
  let rest := (seconds % 86400).toNat
  { year := date.1, month := date.2.1, day := date.2.2
    hour := rest / 3600, minute := rest / 60 % 60, second := rest % 60 }

/-- A number with at least two digits. -/
def twoDigits (n : Nat) : List Char := (Nat.toDigits 10 n).leftpad 2 '0'

/-- A number with a sign if it is negative. -/
def signedDigits : Int → List Char
  | .ofNat n => Nat.toDigits 10 n
  | .negSucc n => '-' :: Nat.toDigits 10 (n + 1)

/-- `std::strftime` with the format `%Y-%m-%d %H:%M:%S`. -/
def strftime (t : Tm) : String :=
  String.ofList (signedDigits t.year ++ '-' :: twoDigits t.month ++ '-' :: twoDigits t.day ++
    ' ' :: twoDigits t.hour ++ ':' :: twoDigits t.minute ++ ':' :: twoDigits t.second)

/-- `utils::timestampToString`. -/
def timestampToString (clock : LocalClock) (timestamp : UInt64) : String :=
  strftime (localtime clock (to_time_t clock timestamp))

/-- The first moment of a leap day. -/
example : timestampToString ⟨1000000, fun _ => 0⟩ 951782400000 = "2000-02-29 00:00:00" := by
  decide +kernel

/-- One hour ahead of UTC. -/
example : timestampToString ⟨10000, fun _ => 3600⟩ 1700000000000 = "2023-11-14 23:13:20" := by
  decide +kernel

/-! ## What is written -/

/-- A character of a time. -/
def isTimeChar (c : Char) : Bool := c.isDigit || c = '-' || c = ' ' || c = ':'

/-- They lie between the blank and the colon. -/
theorem toNat_of_isTimeChar {c : Char} (h : isTimeChar c = true) :
    32 ≤ c.toNat ∧ c.toNat ≤ 58 := by
  simp only [isTimeChar, Bool.or_eq_true, decide_eq_true_eq] at h
  rcases h with ((hdigit | rfl) | rfl) | rfl
  · have hrange : 48 ≤ c.toNat ∧ c.toNat ≤ 57 := by
      simpa [Char.isDigit, UInt32.le_iff_toNat_le] using hdigit
    omega
  · decide
  · decide
  · decide

theorem isTimeChar_of_mem_toDigits {n : Nat} {c : Char} (h : c ∈ Nat.toDigits 10 n) :
    isTimeChar c = true := by
  have hdigit := Nat.isDigit_of_mem_toDigits (by decide) (by decide) h
  simp [isTimeChar, hdigit]

theorem isTimeChar_of_mem_twoDigits {n : Nat} {c : Char} (h : c ∈ twoDigits n) :
    isTimeChar c = true := by
  rw [twoDigits, List.leftpad] at h
  rcases List.mem_append.1 h with hpad | hdigit
  · rw [List.eq_of_mem_replicate hpad]
    rfl
  · exact isTimeChar_of_mem_toDigits hdigit

theorem isTimeChar_of_mem_signedDigits {x : Int} {c : Char} (h : c ∈ signedDigits x) :
    isTimeChar c = true := by
  cases x with
  | ofNat n => exact isTimeChar_of_mem_toDigits h
  | negSucc n =>
      rcases List.mem_cons.1 h with rfl | hdigit
      · rfl
      · exact isTimeChar_of_mem_toDigits hdigit

theorem isTimeChar_strftime (t : Tm) : ∀ c ∈ (strftime t).toList, isTimeChar c = true := by
  have hdash : isTimeChar '-' = true := rfl
  have hblank : isTimeChar ' ' = true := rfl
  have hcolon : isTimeChar ':' = true := rfl
  rw [strftime, String.toList_ofList]
  simp only [List.forall_mem_append, List.forall_mem_cons, hdash, hblank, hcolon, true_and]
  refine ⟨⟨⟨⟨⟨?_, ?_⟩, ?_⟩, ?_⟩, ?_⟩, ?_⟩
  · exact fun c => isTimeChar_of_mem_signedDigits
  all_goals exact fun c => isTimeChar_of_mem_twoDigits

/-- A time has no line break. -/
theorem newline_notMem_timestampToString (clock : LocalClock) (timestamp : UInt64) :
    (10 : UInt8) ∉ bytesOf (timestampToString clock timestamp) := by
  have hchars := isTimeChar_strftime (localtime clock (to_time_t clock timestamp))
  rw [strftime, String.toList_ofList] at hchars
  rw [timestampToString, strftime, bytesOf_ofList_ascii fun c hc =>
    (toNat_of_isTimeChar (hchars c hc)).2.trans (by decide)]
  intro hmem
  obtain ⟨c, hc, hbyte⟩ := List.mem_map.1 hmem
  have hrange := toNat_of_isTimeChar (hchars c hc)
  have hnat := congrArg UInt8.toNat hbyte
  rw [UInt8.toNat_ofNat'] at hnat
  change c.toNat % 256 = 10 at hnat
  omega

end Utils
end DChat
