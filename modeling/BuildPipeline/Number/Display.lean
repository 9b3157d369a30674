import BuildPipeline.Number.Binary64
import BuildPipeline.Number.Shortest

/-!
Floats in decimal: the shortest digits that read back, positional while the leading digit stands
between 10⁻⁴ and 10¹⁵ and with an exponent of at least two digits elsewhere. A float always shows
a point or an exponent, so it never looks like a whole number.
-/
namespace BuildPipeline.Number

def zeros (n : Nat) : List Char := List.replicate n '0'

/-- The value `0.ds * 10 ^ point` without an exponent. -/
def positional (ds : List Char) (point : Int) : List Char :=
  if point ≤ 0 then '0' :: '.' :: zeros (-point).toNat ++ ds
  else if point.toNat < ds.length then ds.take point.toNat ++ '.' :: ds.drop point.toNat
  else ds ++ zeros (point.toNat - ds.length) ++ ['.', '0']

/-- The value `0.ds * 10 ^ point` with one digit before the point. -/
def scientific (ds : List Char) (point : Int) : List Char :=
  let e := point - 1
  let es := (toString e.natAbs).toList
  let mantissa := match ds with
    | d :: r :: rs => d :: '.' :: r :: rs
    | ds => ds
  mantissa ++ 'e' :: (if e < 0 then '-' else '+') :: zeros (2 - es.length) ++ es

def layout (d : Decimal) : List Char :=
  let ds := (toString d.digits).toList
  let point := Int.ofNat ds.length + d.exponent
  if -4 < point ∧ point ≤ 16 then positional ds point else scientific ds point

def display (x : Float) : String :=
  match decode x with
  | .nan => "nan"
  | .infinite negative => if negative then "-inf" else "inf"
  | .finite negative m q =>
    let digits := if m = 0 then ['0', '.', '0'] else layout (shortest m q)
    String.ofList (if negative then '-' :: digits else digits)

end BuildPipeline.Number
