import BuildPipeline.Text.Quoted
import BuildPipeline.Text.Utf8
import BuildPipeline.Time.Moment

/-!
Reading ISO 8601 moments: a calendar or week date with or without hyphens, one separator of any
kind, a time of day with or without colons, and an offset. Positions are octets of UTF-8.
-/
namespace BuildPipeline.Time
open BuildPipeline.Text

def octet (c : Char) : Nat := c.toNat

/-- The octet at the front; 0 past the end. -/
def front (bs : List Nat) : Nat := bs.headD 0

def isOctetDigit (b : Nat) : Bool := octet '0' ≤ b && b ≤ octet '9'

/-- Exactly `k` digits at the front. -/
def takeDigits : Nat → Nat → List Nat → Option (Nat × List Nat)
  | 0, n, bs => some (n, bs)
  | k + 1, n, b :: bs => if isOctetDigit b then takeDigits k (10 * n + (b - 48)) bs else none
  | _ + 1, _, [] => none

/-- Where the date ends. A week date without hyphens ends before an even number of further digits;
one with hyphens ends at its week when two digits seem to follow the next hyphen. -/
def separatorAt (bs : List Nat) : Nat :=
  let n := bs.length
  let code (i : Nat) := bs.getD i 0
  if n = 7 then 7
  else if code 4 = octet '-' then
    if code 5 = octet 'W' then
      if 8 < n ∧ code 8 = octet '-' then
        if 10 < n ∧ isOctetDigit (code 10) then 8 else 10
      else 8
    else 10
  else if code 4 = octet 'W' then
    let stop := 7 + ((bs.drop 7).takeWhile isOctetDigit).length
    if stop < 9 then stop else if stop % 2 = 0 then 7 else 8
  else 8

/-- The date of a week and a weekday, each counted from 1. The weeks of year 0 have no month. -/
def ofWeek (y w d : Nat) : Option (Except FieldError Date) :=
  if w < 1 ∨ 53 < w ∨ (w = 53 ∧ !(y != 0 && hasLongYear y)) then none
  else if d < 1 ∨ 7 < d then none
  else if y = 0 then some (.error .month)
  else
    let date := Date.ofOrdinal (firstMonday y + Int.ofNat ((w - 1) * 7 + d - 1)).toNat
    some (Date.make date.year date.month date.day)

/-- The date that the first `size` octets spell. -/
def readDate (size : Nat) (bs : List Nat) : Option (Except FieldError Date) := do
  let (y, r) ← takeDigits 4 0 bs
  let hyphens := front r == octet '-'
  let r := if hyphens then r.drop 1 else r
  if front r = octet 'W' then
    let (w, r) ← takeDigits 2 0 (r.drop 1)
    if bs.length - r.length < size then
      if hyphens ∧ front r ≠ octet '-' then none
      let (d, _) ← takeDigits 1 0 (if hyphens then r.drop 1 else r)
      ofWeek y w d
    else ofWeek y w 1
  else
    let (m, r) ← takeDigits 2 0 r
    if hyphens ∧ front r ≠ octet '-' then none
    let (d, _) ← takeDigits 2 0 (if hyphens then r.drop 1 else r)
    pure (Date.make y m d)

structure Clock where
  hours : Nat
  minutes : Nat
  seconds : Nat
  micros : Nat
  /-- Whether everything was read. -/
  complete : Bool

/-- The digits after the decimal mark; those beyond the sixth are passed over. -/
def readFraction (room : Nat) (parts : List Nat) (bs : List Nat) : Option Clock := do
  let k := min room 6
  let (n, r) ← takeDigits k 0 bs
  let rest := r.dropWhile isOctetDigit
  some ⟨parts.getD 0 0, parts.getD 1 0, parts.getD 2 0, n * Nat.pow 10 (6 - k), front rest == 0⟩

/-- Up to three pairs of digits. `room` octets belong to the time; the one after a pair is looked
at even when it lies beyond them. -/
def readPairs : Nat → Bool → List Nat → Nat → List Nat → Option Clock
  | 0, _, parts, room, bs => readFraction room parts bs
  | k + 1, colons, parts, room, bs => do
    let (n, r) ← takeDigits 2 0 bs
    let c := front r
    let parts := parts ++ [n]
    let colons := if parts.length = 1 then c == octet ':' else colons
    if room ≤ 3 then
      some ⟨parts.getD 0 0, parts.getD 1 0, parts.getD 2 0, 0, c == 0⟩
    else if colons ∧ c = octet ':' then readPairs k colons parts (room - 3) (r.drop 1)
    else if c = octet '.' ∨ c = octet ',' then readFraction (room - 3) parts (r.drop 1)
    else if !colons then readPairs k colons parts (room - 2) r
    else none

def readClock (room : Nat) (bs : List Nat) : Option Clock := readPairs 3 true [] room bs

def isZoneMark (b : Nat) : Bool := b == octet '+' || b == octet '-' || b == octet 'Z'

/-- A time of day with the offset that may follow it, in microseconds. -/
def readTime (bs : List Nat) : Option (Clock × Option Int) := do
  let room := (bs.takeWhile (!isZoneMark ·)).length
  let clock ← readClock room bs
  match bs.drop room with
  | [] => if clock.complete then some (clock, none) else none
  | mark :: zone =>
    if mark = octet 'Z' then (if front zone = 0 then some (clock, some 0) else none)
    else
      let z ← readClock zone.length zone
      let seconds := z.hours * 3600 + z.minutes * 60 + z.seconds
      let micros := Int.ofNat (if seconds = 0 then 0 else seconds * second + z.micros)
      if z.complete then some (clock, some (if mark = octet '-' then -micros else micros)) else none

/-- How many octets the character at the front takes, judged by its first octet. -/
def widthOf (b : Nat) : Nat :=
  if b < 0x80 then 1 else if b / 16 = 0xE then 3 else if b / 16 = 0xF then 4 else 2

def readParts (bs : List Nat) : Option (Except FieldError Date × Clock × Option Int) := do
  if bs.length < 7 then none
  let stop := separatorAt bs
  let date ← readDate stop bs
  if stop < bs.length then
    let r := bs.drop stop
    let (clock, zone) ← readTime (r.drop (widthOf (front r)))
    some (date, clock, zone)
  else some (date, ⟨0, 0, 0, 0, true⟩, none)

def Moment.read (s : String) : Except TimeError Moment := do
  match readParts (encodeUtf8 s.toList) with
  | none => .error (.format (quoted s))
  | some (date, clock, zone) =>
    let zone ← zone.mapM checkOffset
    let date ← date.mapError .field
    (Moment.make date clock.hours clock.minutes clock.seconds clock.micros zone).mapError .field

end BuildPipeline.Time
