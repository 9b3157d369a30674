import BuildPipeline.Text.Hex

/-!
The Gregorian calendar, extended to the years 1 to 9999. A day's ordinal counts days from the
first day of year 1, which is 1 and a Monday.
-/
namespace BuildPipeline.Time
open BuildPipeline.Text

structure Date where
  year : Nat
  month : Nat
  day : Nat
  deriving DecidableEq

/-- Which part of a date or a time of day is outside its range. -/
inductive FieldError
  | year (n : Nat)
  | month
  | day
  | hour
  | minute
  | second
  | microsecond
  deriving DecidableEq

def FieldError.message : FieldError → String
  | .year n => s!"year {n} is out of range"
  | .month => "month must be in 1..12"
  | .day => "day is out of range for month"
  | .hour => "hour must be in 0..23"
  | .minute => "minute must be in 0..59"
  | .second => "second must be in 0..59"
  | .microsecond => "microsecond must be in 0..999999"

def isLeap (y : Nat) : Bool := y % 4 == 0 && (y % 100 != 0 || y % 400 == 0)

def monthLengths : List Nat := [31, 28, 31, 30, 31, 30, 31, 31, 30, 31, 30, 31]

def daysInMonth (y m : Nat) : Nat :=
  if m = 2 ∧ isLeap y then 29 else monthLengths.getD (m - 1) 0

def daysBeforeYear (y : Nat) : Nat := (y - 1) * 365 + (y - 1) / 4 - (y - 1) / 100 + (y - 1) / 400

def daysBeforeMonth (y m : Nat) : Nat :=
  (List.range (m - 1)).foldl (fun days i => days + daysInMonth y (i + 1)) 0

namespace Date

def make (y m d : Nat) : Except FieldError Date :=
  if y < 1 ∨ 9999 < y then .error (.year y)
  else if m < 1 ∨ 12 < m then .error .month
  else if d < 1 ∨ daysInMonth y m < d then .error .day
  else .ok ⟨y, m, d⟩

def ordinal (d : Date) : Nat := daysBeforeYear d.year + daysBeforeMonth d.year d.month + d.day

/-- The month and day of a year's `n`-th day, counted from 0. -/
def inYear (y : Nat) : Nat → Nat → Nat → Date
  | 0, m, n => ⟨y, m, n + 1⟩
  | fuel + 1, m, n =>
    if n < daysInMonth y m then ⟨y, m, n + 1⟩ else inYear y fuel (m + 1) (n - daysInMonth y m)

/-- The date of an ordinal: whole cycles of 400, 100, 4 and 1 years, then months. -/
def ofOrdinal (n : Nat) : Date :=
  let n := n - 1
  let y400 := n / 146097
  let n := n % 146097
  let y100 := n / 36524
  let r := n % 36524
  let y4 := r / 1461
  let s := r % 1461
  let y1 := s / 365
  let y := y400 * 400 + y100 * 100 + y4 * 4 + y1 + 1
  if y1 = 4 ∨ y100 = 4 then ⟨y - 1, 12, 31⟩ else inYear y 11 1 (s % 365)

def iso (d : Date) : String :=
  String.ofList (decimal 4 d.year ++ '-' :: decimal 2 d.month ++ '-' :: decimal 2 d.day)

end Date

/-- The Monday on or before a year's fourth of January begins its first week. -/
def firstMonday (y : Nat) : Int :=
  let first := Int.ofNat (daysBeforeYear y) + 1
  let weekday := (first + 6) % 7
  let monday := first - weekday
  if 3 < weekday then monday + 7 else monday

/-- Years that begin on a Thursday, and leap years that begin on a Wednesday, have 53 weeks. -/
def hasLongYear (y : Nat) : Bool :=
  let weekday := (daysBeforeYear y + 7) % 7
  weekday == 3 || weekday == 2 && isLeap y

end BuildPipeline.Time
