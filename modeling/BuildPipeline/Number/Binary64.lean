/-!
Floats taken apart: sign, whole significand and binary exponent, and what follows from them over
the integers (truncation, rounding, conversion from and to whole numbers).
-/
namespace BuildPipeline.Number

/-- The parts of a float: `finite negative m q` has the magnitude `m * 2 ^ q`. -/
inductive Binary64
  | nan
  | infinite (negative : Bool)
  | finite (negative : Bool) (m : Nat) (q : Int)
  deriving DecidableEq

def decode (x : Float) : Binary64 :=
  let b := x.toBits.toNat
  let negative := b / Nat.pow 2 63 % 2 == 1
  let e := b / Nat.pow 2 52 % Nat.pow 2 11
  let f := b % Nat.pow 2 52
  if e = 2047 then (if f = 0 then .infinite negative else .nan)
  else if e = 0 then .finite negative f (-1074)
  else .finite negative (Nat.pow 2 52 + f) (Int.ofNat e - 1075)

def signed (negative : Bool) (n : Nat) : Int := if negative then -Int.ofNat n else Int.ofNat n

/-- The whole part of `m * 2 ^ q`. -/
def wholePart (m : Nat) (q : Int) : Nat := m * Nat.pow 2 q.toNat / Nat.pow 2 (-q).toNat

/-- Toward zero; only finite values have an answer. -/
def truncate? (x : Float) : Option Int :=
  match decode x with
  | .finite negative m q => some (signed negative (wholePart m q))
  | _ => none

/-- The whole number that a float is equal to. -/
def whole? (x : Float) : Option Int :=
  match decode x with
  | .finite negative m q =>
    if wholePart m q * Nat.pow 2 (-q).toNat = m * Nat.pow 2 q.toNat then
      some (signed negative (wholePart m q))
    else none
  | _ => none

/-- The nearest whole number of `n / d`; a half goes to the even neighbour. -/
def roundHalfEven (n d : Nat) : Nat :=
  let t := n / d
  let r := 2 * (n % d)
  if r < d then t else if d < r then t + 1 else if t % 2 = 0 then t else t + 1

/-- A float without decimal places, sign included. -/
def rounded (x : Float) : String :=
  match decode x with
  | .nan => "nan"
  | .infinite negative => if negative then "-inf" else "inf"
  | .finite negative m q =>
    (if negative then "-" else "") ++ toString
        (roundHalfEven (m * Nat.pow 2 q.toNat) (Nat.pow 2 (-q).toNat))

/-- The least whole number that is rounded to `2 ^ 1024`, which is no float any more. -/
def floatLimit : Nat := Nat.pow 2 1024 - Nat.pow 2 970

/-- The nearest float of a whole number, unless it is beyond the greatest one. -/
def ofInt? (n : Int) : Option Float :=
  if n.natAbs < floatLimit then
    let x := Float.ofScientific n.natAbs false 0
    some (if n < 0 then -x else x)
  else none

/-- The place of the leading binary digit of `n / d`. -/
def binaryPlace (n d : Nat) : Int :=
  let k := Int.ofNat n.log2 - Int.ofNat d.log2
  if n * Nat.pow 2 (-k).toNat < d * Nat.pow 2 k.toNat then k - 1 else k

/-- The bits of an infinity without its sign; those of finite values are less. -/
def infiniteBits : Nat := 2047 * Nat.pow 2 52

/-- The bits of the float nearest to `n / d`. The exponent stands above the significand, so that a
significand that is rounded up to a power of two carries into it. -/
def nearestBits (n d : Nat) : Nat :=
  let q := max (-1074) (binaryPlace n d - 52)
  let m := roundHalfEven (n * Nat.pow 2 (-q).toNat) (d * Nat.pow 2 q.toNat)
  min ((q + 1074).toNat * Nat.pow 2 52 + m) infiniteBits

def ofParts (negative : Bool) (bits : Nat) : Float :=
  Float.ofBits (UInt64.ofNat ((if negative then Nat.pow 2 63 else 0) + bits))

/-- The float nearest to `m * 10 ^ e`. Exponents far out of range are settled by the digit count. -/
def ofDecimal (negative : Bool) (m : Nat) (e : Int) : Float :=
  let magnitude := Int.ofNat (toString m).length + e
  ofParts negative <|
    if m = 0 ∨ magnitude < -400 then 0
    else if 400 < magnitude then infiniteBits
    else nearestBits (m * Nat.pow 10 e.toNat) (Nat.pow 10 (-e).toNat)

def nan : Float := 0.0 / 0.0

def infinity (negative : Bool) : Float := if negative then -1.0 / 0.0 else 1.0 / 0.0

end BuildPipeline.Number
