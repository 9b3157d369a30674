/-!
The fewest decimal digits that read back as a given binary value, and of those the nearest. All
comparisons are between whole numbers.
-/
namespace BuildPipeline.Number

/-- The number `digits * 10 ^ exponent`. -/
structure Decimal where
  digits : Nat
  exponent : Int
  deriving DecidableEq

/-- How `a * 10 ^ i` compares with `m * 2 ^ q`. -/
def compareScaled (a : Nat) (i : Int) (m : Nat) (q : Int) : Ordering :=
  compare (a * Nat.pow 10 i.toNat * Nat.pow 2 (-q).toNat)
    (m * Nat.pow 2 q.toNat * Nat.pow 10 (-i).toNat)

/-- Below a power of two the next value is half as far away, except at the lowest exponents. -/
def narrowBelow (m : Nat) (q : Int) : Bool := m == Nat.pow 2 52 && q > -1074

/-- Whether a decimal lies among the reals that round to `m * 2 ^ q`. -/
def readsBack (m : Nat) (q : Int) (d : Decimal) : Bool :=
  let low := if narrowBelow m q then 4 * m - 1 else 4 * m - 2
  let below := compareScaled d.digits d.exponent low (q - 2)
  let above := compareScaled d.digits d.exponent (4 * m + 2) (q - 2)
  let closed := m % 2 == 0
  (below == .gt || closed && below == .eq) && (above == .lt || closed && above == .eq)

/-- The least `k` from `k₀` on with `m * 2 ^ q < 10 ^ k`. -/
def scaleFrom (m : Nat) (q : Int) : Nat → Int → Int
  | 0, k => k
  | fuel + 1, k => if compareScaled 1 k m q == .gt then k else scaleFrom m q fuel (k + 1)

/-- The place of the leading digit of a positive value. -/
def scale (m : Nat) (q : Int) : Int :=
  scaleFrom m q 4 ((Int.ofNat m.log2 + q) * 30103 / 100000 - 1)

/-- The better of the two neighbours of a value on a decimal grid, if one reads back. -/
def onGrid (m : Nat) (q e : Int) : Option Decimal :=
  let floor :=
    m * Nat.pow 2 q.toNat * Nat.pow 10 (-e).toNat / (Nat.pow 2 (-q).toNat * Nat.pow 10 e.toNat)
  let below : Decimal := ⟨floor, e⟩
  let above : Decimal := ⟨floor + 1, e⟩
  match readsBack m q below, readsBack m q above with
  | false, false => none
  | true, false => some below
  | false, true => some above
  | true, true =>
    match compareScaled (2 * floor + 1) e (2 * m) q with
    | .gt => some below
    | .lt => some above
    | .eq => some (if floor % 2 = 0 then below else above)

def stripZeros : Nat → Decimal → Decimal
  | 0, d => d
  | fuel + 1, d =>
    if d.digits ≠ 0 ∧ d.digits % 10 = 0 then stripZeros fuel ⟨d.digits / 10, d.exponent + 1⟩ else d

/-- The value itself, with as many digits as it has. -/
def exactDecimal (m : Nat) (q : Int) : Decimal :=
  ⟨m * Nat.pow 2 q.toNat * Nat.pow 5 (-q).toNat, if q < 0 then q else 0⟩

/-- Grids grow finer by one digit until a neighbour on one reads back. -/
def shortest (m : Nat) (q : Int) : Decimal :=
  let k := scale m q
  let found := (List.range 17).findSome? fun n : Nat => onGrid m q (k - (n + 1))
  let d := found.getD (exactDecimal m q)
  stripZeros (toString d.digits).length d

end BuildPipeline.Number
