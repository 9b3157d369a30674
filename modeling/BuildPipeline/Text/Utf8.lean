/-!
UTF-8: characters as octets, and back. Decoding names the first octet sequence that is no
character: where it starts, where it stops and what is wrong with it.
-/
namespace BuildPipeline.Text

def encodeChar (c : Char) : List Nat :=
  let n := c.toNat
  if n < 0x80 then [n]
  else if n < 0x800 then [0xC0 + n / 64, 0x80 + n % 64]
  else if n < 0x10000 then [0xE0 + n / 4096, 0x80 + n / 64 % 64, 0x80 + n % 64]
  else [0xF0 + n / 262144, 0x80 + n / 4096 % 64, 0x80 + n / 64 % 64, 0x80 + n % 64]

def encodeUtf8 (cs : List Char) : List Nat := cs.flatMap encodeChar

inductive Utf8Flaw
  | start
  | continuation
  | endOfData
  deriving DecidableEq

def Utf8Flaw.reason : Utf8Flaw → String
  | .start => "invalid start byte"
  | .continuation => "invalid continuation byte"
  | .endOfData => "unexpected end of data"

/-- Octets `start` up to `stop`, the last one left out, are no character; `octet` is the first. -/
structure Utf8Error where
  flaw : Utf8Flaw
  start : Nat
  stop : Nat
  octet : Nat
  deriving DecidableEq

/-- How many octets follow a first octet, and the range of the second one. -/
def leadOf (b : Nat) : Option (Nat × Nat × Nat) :=
  if b < 0xC2 then none
  else if b < 0xE0 then some (1, 0x80, 0xBF)
  else if b = 0xE0 then some (2, 0xA0, 0xBF)
  else if b = 0xED then some (2, 0x80, 0x9F)
  else if b < 0xF0 then some (2, 0x80, 0xBF)
  else if b = 0xF0 then some (3, 0x90, 0xBF)
  else if b < 0xF4 then some (3, 0x80, 0xBF)
  else if b = 0xF4 then some (3, 0x80, 0x8F)
  else none

/-- Where the octets of one character go on. `n` is the value so far. -/
inductive Utf8State
  | fresh
  | within (first start remaining low high n : Nat)

/-- Reads octets from position `i`. -/
def decodeFrom : List Nat → Nat → Utf8State → Except Utf8Error (List Char)
  | [], _, .fresh => .ok []
  | [], i, .within first start _ _ _ _ => .error ⟨.endOfData, start, i, first⟩
  | b :: bs, i, .fresh =>
    if b < 0x80 then (decodeFrom bs (i + 1) .fresh).map (Char.ofNat b :: ·)
    else match leadOf b with
      | none => .error ⟨.start, i, i + 1, b⟩
      | some (k, low, high) =>
        decodeFrom bs (i + 1) (.within b i k low high (b % Nat.pow 2 (6 - k)))
  | b :: bs, i, .within first start remaining low high n =>
    if b < low ∨ high < b then .error ⟨.continuation, start, i, first⟩
    else
      let n := n * 64 + b % 64
      if remaining ≤ 1 then (decodeFrom bs (i + 1) .fresh).map (Char.ofNat n :: ·)
      else decodeFrom bs (i + 1) (.within first start (remaining - 1) 0x80 0xBF n)

def decodeUtf8 (bs : List Nat) : Except Utf8Error (List Char) := decodeFrom bs 0 .fresh

end BuildPipeline.Text
