import BuildPipeline.Json.Reader
import BuildPipeline.Number.Reader
import BuildPipeline.Text.LowerCase
import BuildPipeline.Yaml.Error
import BuildPipeline.Yaml.Tag

/-!
Scalars from their tag and text: truth values, numbers in several bases, dates and times, octets in
base 64.
-/
namespace BuildPipeline.Yaml
open BuildPipeline.Text BuildPipeline.Time

def splitOn (sep : Char) : List Char → List (List Char)
  | [] => [[]]
  | c :: cs =>
    if c = sep then [] :: splitOn sep cs
    else match splitOn sep cs with
      | [] => [[c]]
      | p :: ps => (c :: p) :: ps

def withoutLowLines (cs : List Char) : List Char := cs.filter (· != '_')

section Numbers

/-- A whole number; only decimal ones have a bound on their digits. -/
def literalInt (base : Nat) (cs : List Char) : Except LiteralError Int :=
  match Number.readInt base cs with
  | none => .error (.int base (String.ofList cs))
  | some n =>
    let digits := (cs.filter fun c => (digit? c).isSome).length
    if base = 10 ∧ Json.maxDigits < digits then .error (.tooLong digits) else .ok n

/-- The number that parts in base 60 spell. -/
def ofSixties (parts : List Int) : Int := parts.foldl (fun n p => 60 * n + p) 0

def readMagnitude (cs : List Char) : Except LiteralError Int :=
  match cs with
  | [] => .error .empty
  | ['0'] => .ok 0
  | '0' :: 'b' :: r => literalInt 2 r
  | '0' :: 'x' :: r => literalInt 16 r
  | '0' :: _ => literalInt 8 cs
  | cs =>
    if cs.contains ':' then do return ofSixties (← (splitOn ':' cs).mapM (literalInt 10))
    else literalInt 10 cs

def readInt (cs : List Char) : Except LiteralError Int :=
  match withoutLowLines cs with
  | [] => .error .empty
  | '-' :: r => do return -(← readMagnitude r)
  | '+' :: r => readMagnitude r
  | r => readMagnitude r

def literalFloat (cs : List Char) : Except LiteralError Float :=
  match Number.readFloat cs with
  | some x => .ok x
  | none => .error (.float (String.ofList cs))

/-- Parts in base 60, the lowest first. -/
def sumSixties (base : Nat) (sum : Float) : List Float → Float
  | [] => sum
  | x :: xs => sumSixties (base * 60) (sum + x * Float.ofNat base) xs

def readFloatMagnitude (cs : List Char) : Except LiteralError Float :=
  if cs = ".inf".toList then .ok (Number.infinity false)
  else if cs = ".nan".toList then .ok Number.nan
  else if cs.contains ':' then do
    return sumSixties 1 0.0 (← (splitOn ':' cs).mapM literalFloat).reverse
  else literalFloat cs

def readFloat (cs : List Char) : Except LiteralError Float :=
  match lowerAfter [] (withoutLowLines cs) with
  | [] => .error .empty
  | '-' :: r => do
    let x ← readFloatMagnitude r
    return if r = ".nan".toList then x else -x
  | '+' :: r => readFloatMagnitude r
  | r => readFloatMagnitude r

end Numbers

section Truth

def truths : List String := ["yes", "true", "on"]

def falsehoods : List String := ["no", "false", "off"]

def readBool (cs : List Char) : Except LiteralError Bool :=
  let word := String.ofList (lowerAfter [] cs)
  if truths.contains word then .ok true
  else if falsehoods.contains word then .ok false
  else .error (.bool word)

end Truth

section Times

/-- Six digits of a fraction of a second. -/
def fractionMicros (ds : List Char) : Nat :=
  decimalValue (ds.take 6 ++ List.replicate (6 - ds.length) '0')

def zoneOffset (z : Zone) : Except TimeError Int :=
  let minutes := decimalValue z.hours * 60 + decimalValue z.minutes
  let micros := Int.ofNat (minutes * 60 * second)
  match z.sign with
  | some '-' => checkOffset (-micros)
  | some _ => checkOffset micros
  | none => .ok 0

def ofStamp (s : Stamp) : Except TimeError Scalar := do
  let date := Date.make (decimalValue s.year) (decimalValue s.month) (decimalValue s.day)
  match s.clock with
  | none => return .date (← date.mapError .field)
  | some (h, m, sec, f) =>
    let zone ← s.zone.mapM zoneOffset
    let d ← date.mapError .field
    let t := Moment.make d (decimalValue h) (decimalValue m) (decimalValue sec)
      (fractionMicros f) zone
    return .moment (← t.mapError .field)

def readTimestamp (cs : List Char) : Except LiteralError Scalar :=
  match readStamp cs with
  | none => .error .timestamp
  | some s => (ofStamp s).mapError .time

end Times

section Octets

def base64Glyphs : List Char :=
  "ABCDEFGHIJKLMNOPQRSTUVWXYZabcdefghijklmnopqrstuvwxyz0123456789+/".toList

/-- Octets from sextets, with the place in a group of four, what is left of the last sextet and the
number of padding marks. Other characters are passed over; padding that fills a group ends it all;
`none` when a group is cut short. -/
def ofBase64 : Nat → Nat → Nat → List Char → Option (List UInt8)
  | place, _, _, [] => if place = 0 then some [] else none
  | place, left, pads, c :: cs =>
    if c = '=' then
      if 2 ≤ place then
        if 4 ≤ place + pads + 1 then some [] else ofBase64 place left (pads + 1) cs
      else ofBase64 place left pads cs
    else match base64Glyphs.idxOf? c with
      | none => ofBase64 place left pads cs
      | some n =>
        let byte (k : Nat) := UInt8.ofNat k
        match place with
        | 0 => ofBase64 1 n 0 cs
        | 1 => (ofBase64 2 (n % 16) 0 cs).map (byte (left * 4 + n / 16) :: ·)
        | 2 => (ofBase64 3 (n % 4) 0 cs).map (byte (left * 16 + n / 4) :: ·)
        | _ => (ofBase64 0 0 0 cs).map (byte (left * 64 + n) :: ·)

def readOctets (cs : List Char) : Except ReadError (List UInt8) :=
  if cs.any (0x7F < ·.toNat) then .error .content
  else match ofBase64 0 0 0 cs with
    | some bs => .ok bs
    | none => .error .content

end Octets

/-- A scalar under a tag. Tags of collections and tags that are not known have no scalars. -/
def readScalar (t : Tag) (cs : List Char) : Except ReadError Scalar :=
  match t with
  | .null => .ok .null
  | .bool => (readBool cs).map Scalar.bool |>.mapError .literal
  | .int => (readInt cs).map Scalar.int |>.mapError .literal
  | .float => (readFloat cs).map Scalar.float |>.mapError .literal
  | .binary => (readOctets cs).map Scalar.bytes
  | .timestamp => (readTimestamp cs).mapError .literal
  | .str => .ok (.str (String.ofList cs))
  | _ => .error .content

end BuildPipeline.Yaml
