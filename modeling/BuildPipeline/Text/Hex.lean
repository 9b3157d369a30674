/-!
Numbers written with a fixed number of digits.
-/
namespace BuildPipeline.Text

def lowerDigits : List Char := "0123456789abcdef".toList

def upperDigits : List Char := "0123456789ABCDEF".toList

/-- The last `width` digits of `n` in base `b`. -/
def digits (glyphs : List Char) (b : Nat) : Nat → Nat → List Char
  | 0, _ => []
  | width + 1, n => digits glyphs b width (n / b) ++ [glyphs.getD (n % b) '0']

def hex (width n : Nat) : List Char := digits lowerDigits 16 width n

def upperHex (width n : Nat) : List Char := digits upperDigits 16 width n

def decimal (width n : Nat) : List Char := digits lowerDigits 10 width n

/-- At least `width` digits, with zeros in front. -/
def padded (width n : Nat) : List Char :=
  let ds := (toString n).toList
  List.replicate (width - ds.length) '0' ++ ds

/-- The value of a hexadecimal digit. -/
def hexDigit? (c : Char) : Option Nat :=
  if '0' ≤ c ∧ c ≤ '9' then some (c.toNat - '0'.toNat)
  else if 'a' ≤ c ∧ c ≤ 'f' then some (c.toNat - 'a'.toNat + 10)
  else if 'A' ≤ c ∧ c ≤ 'F' then some (c.toNat - 'A'.toNat + 10)
  else none

def isHexDigit (c : Char) : Bool := (hexDigit? c).isSome

def isDecimalDigit (c : Char) : Bool := '0' ≤ c && c ≤ '9'

/-- The number that hexadecimal digits spell. -/
def hexValue (cs : List Char) : Nat := cs.foldl (fun n c => 16 * n + (hexDigit? c).getD 0) 0

/-- The number that decimal digits spell. -/
def decimalValue (cs : List Char) : Nat :=
  cs.foldl (fun n c => 10 * n + (c.toNat - '0'.toNat)) 0

end BuildPipeline.Text
