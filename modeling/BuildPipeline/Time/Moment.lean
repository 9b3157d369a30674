import BuildPipeline.Time.Calendar

/-!
Moments: a date and a time of day to the microsecond, with or without an offset from UTC. A moment
without offset counts as UTC when two moments are set side by side.
-/
namespace BuildPipeline.Time
open BuildPipeline.Text

/-- A moment. `micros` counts from midnight of the first day of year 1 on the wall clock. -/
structure Moment where
  micros : Nat
  offset : Option Int
  deriving DecidableEq

inductive TimeError
  | field (e : FieldError)
  | offset (micros : Int)
  | format (s : String)
  | notText
  | overflow
  deriving DecidableEq

def second : Nat := 1000000
def hour : Nat := 3600 * second
def day : Nat := 24 * hour

/-- One past the last microsecond of year 9999. -/
def horizon : Nat := 3652059 * day

/-- A span as it shows in messages: days, then seconds and microseconds of the last day. -/
def spanLiteral (micros : Int) : String :=
  let days := micros.fdiv day
  let rest := (micros.fmod day).toNat
  let parts := [("days", days), ("seconds", Int.ofNat (rest / second)),
    ("microseconds", Int.ofNat (rest % second))].filter fun p => p.2 != 0
  let shown := if parts.isEmpty then "0" else
    ", ".intercalate (parts.map fun p => p.1 ++ "=" ++ toString p.2)
  "datetime.timedelta(" ++ shown ++ ")"

def TimeError.kind : TimeError → String
  | .notText => "TypeError"
  | .overflow => "OverflowError"
  | _ => "ValueError"

def TimeError.message : TimeError → String
  | .field e => e.message
  | .offset micros =>
    "offset must be a timedelta strictly between -timedelta(hours=24) and timedelta(hours=24), not "
      ++ spanLiteral micros ++ "."
  | .format s => "Invalid isoformat string: " ++ s
  | .notText => "fromisoformat: argument must be str"
  | .overflow => "date value out of range"

/-- Offsets stay below a day on both sides. -/
def checkOffset (micros : Int) : Except TimeError Int :=
  if micros.natAbs < day then .ok micros else .error (.offset micros)

namespace Moment

def make (date : Date) (h m s us : Nat) (offset : Option Int) : Except FieldError Moment :=
  if 23 < h then .error .hour
  else if 59 < m then .error .minute
  else if 59 < s then .error .second
  else if 999999 < us then .error .microsecond
  else .ok ⟨(date.ordinal - 1) * day + h * hour + m * (60 * second) + s * second + us, offset⟩

def date (t : Moment) : Date := Date.ofOrdinal (t.micros / day + 1)

def hours (t : Moment) : Nat := t.micros % day / hour

def minutes (t : Moment) : Nat := t.micros % hour / (60 * second)

def seconds (t : Moment) : Nat := t.micros % (60 * second) / second

def fraction (t : Moment) : Nat := t.micros % second

/-- Microseconds on the UTC clock. -/
def instant (t : Moment) : Int := Int.ofNat t.micros - t.offset.getD 0

/-- The same instant with offset zero, if UTC has a date for it. -/
def utc (t : Moment) : Except TimeError Moment :=
  if 0 ≤ t.instant ∧ t.instant < horizon then .ok ⟨t.instant.toNat, some 0⟩ else .error .overflow

/-- The moment `micros` later on the same clock. -/
def plus (t : Moment) (micros : Int) : Except TimeError Moment :=
  let n := Int.ofNat t.micros + micros
  if 0 ≤ n ∧ n < horizon then .ok ⟨n.toNat, t.offset⟩ else .error .overflow

/-- Microseconds are left out when they are zero. -/
def clockText (h m s us : Nat) : List Char :=
  decimal 2 h ++ ':' :: decimal 2 m ++ ':' :: decimal 2 s
    ++ (if us = 0 then [] else '.' :: decimal 6 us)

/-- Seconds of an offset are left out when they are zero. -/
def offsetText (micros : Int) : List Char :=
  let n := micros.natAbs
  let h := n / hour
  let m := n % hour / (60 * second)
  let s := n % (60 * second) / second
  let us := n % second
  (if micros < 0 then '-' else '+') ::
    if s = 0 ∧ us = 0 then decimal 2 h ++ ':' :: decimal 2 m else clockText h m s us

def text (separator : Char) (t : Moment) : String :=
  String.ofList (t.date.iso.toList ++ separator
    :: clockText t.hours t.minutes t.seconds t.fraction ++ (t.offset.map offsetText).getD [])

def iso (t : Moment) : String := t.text 'T'

def zoneLiteral (micros : Int) : String :=
  if micros = 0 then "datetime.timezone.utc" else "datetime.timezone(" ++ spanLiteral micros ++ ")"

/-- A moment inside a list or a message; trailing zeros of the time of day are left out. -/
def literal (t : Moment) : String :=
  let d := t.date
  let clock := if t.fraction ≠ 0 then [t.seconds, t.fraction]
    else if t.seconds ≠ 0 then [t.seconds] else []
  let parts := ([d.year, d.month, d.day, t.hours, t.minutes] ++ clock).map toString
  let zone := match t.offset with
    | none => []
    | some o => ["tzinfo=" ++ zoneLiteral o]
  "datetime.datetime(" ++ ", ".intercalate (parts ++ zone) ++ ")"

end Moment

def Date.literal (d : Date) : String := s!"datetime.date({d.year}, {d.month}, {d.day})"

end BuildPipeline.Time
