import BuildPipeline.Document.Value

/-!
The order of keys. Texts are in the order of their code points, numbers by size, dates by day and
moments by instant; keys of different sorts have no order, and sorting stops at the first pair
without one that it has to compare.
-/
namespace BuildPipeline.Json
open BuildPipeline.Time

inductive OrderError
  | kinds (a b : Kind)
  | momentAndDate
  | offsets
  deriving DecidableEq

def OrderError.message : OrderError → String
  | .kinds a b => s!"'<' not supported between instances of '{a.fullName}' and '{b.fullName}'"
  | .momentAndDate => "can't compare datetime.datetime to datetime.date"
  | .offsets => "can't compare offset-naive and offset-aware datetimes"

/-- Sign, significand and exponent of a whole number or a finite float, as a fraction over a power
of two; `none` for what is no number. -/
inductive Quantity
  | nan
  | infinite (negative : Bool)
  | fraction (n : Int) (halvings : Nat)

def quantity? : Scalar → Option Quantity
  | .bool b => some (.fraction (if b then 1 else 0) 0)
  | .int n => some (.fraction n 0)
  | .float x => some <| match Number.decode x with
    | .nan => .nan
    | .infinite negative => .infinite negative
    | .finite negative m q => .fraction (Number.signed negative (m * Nat.pow 2 q.toNat)) (-q).toNat
  | _ => none

def Quantity.less : Quantity → Quantity → Bool
  | .nan, _ => false
  | _, .nan => false
  | .infinite a, .infinite b => a && !b
  | .infinite a, .fraction .. => a
  | .fraction .., .infinite b => !b
  | .fraction n i, .fraction m j => decide (n * Nat.pow 2 j < m * Nat.pow 2 i)

def dateLess (a b : Date) : Bool := decide (a.ordinal < b.ordinal)

def keyLess (a b : Scalar) : Except OrderError Bool :=
  match a, b with
  | .str s, .str t => .ok (decide (s < t))
  | .bytes s, .bytes t => .ok (decide (s.map UInt8.toNat < t.map UInt8.toNat))
  | .date s, .date t => .ok (dateLess s t)
  | .moment _, .date _ | .date _, .moment _ => .error .momentAndDate
  | .moment s, .moment t =>
    if s.offset.isSome = t.offset.isSome then .ok (decide (s.instant < t.instant))
    else .error .offsets
  | a, b =>
    match quantity? a, quantity? b with
    | some p, some q => .ok (p.less q)
    | _, _ => .error (.kinds a.kind b.kind)

section Sorting
variable {ε α : Type} (less : α → α → Except ε Bool)

/-- The longest front in which `keep` holds between each element, named first, and the one before
it, and what is behind that front. -/
def runFrom (keep : Bool) : α → List α → Except ε (List α × List α)
  | _, [] => .ok ([], [])
  | a, b :: bs => do
    if (← less b a) == keep then
      let (run, rest) ← runFrom keep b bs
      return (b :: run, rest)
    else return ([], b :: bs)

/-- The place of an element among sorted ones, found by halving. -/
def placeIn (sorted : List α) (a : α) : Nat → Nat → Nat → Except ε Nat
  | 0, low, _ => .ok low
  | fuel + 1, low, high =>
    if low < high then
      let middle := low + (high - low) / 2
      match sorted[middle]? with
      | none => .ok low
      | some b => do
        if ← less a b then placeIn sorted a fuel low middle
        else placeIn sorted a fuel (middle + 1) high
    else .ok low

def insertAll : List α → List α → Except ε (List α)
  | sorted, [] => .ok sorted
  | sorted, a :: as => do
    let i ← placeIn less sorted a sorted.length 0 sorted.length
    insertAll (sorted.take i ++ a :: sorted.drop i) as

/-- A run in order at the front, turned around if it descends; then one insertion after another. -/
def sortBy : List α → Except ε (List α)
  | [] => .ok []
  | [a] => .ok [a]
  | a :: b :: cs => do
    let descends ← less b a
    let (run, rest) ← runFrom less descends b cs
    let front := a :: b :: run
    insertAll less (if descends then front.reverse else front) rest

end Sorting

/-- The text of a key that is one. -/
def textKey? : Scalar → Option String
  | .str s => some s
  | _ => none

def sortEntries {α : Type} (es : List (Scalar × α)) : Except OrderError (List (Scalar × α)) :=
  match es.mapM fun e => (textKey? e.1).map (·, e) with
  | some ts => .ok ((ts.mergeSort fun a b => !decide (b.1 < a.1)).map (·.2))
  | none => sortBy (fun a b => keyLess a.1 b.1) es

end BuildPipeline.Json
