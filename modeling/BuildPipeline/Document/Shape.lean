import BuildPipeline.Document.Text

/-!
Looking into values whose shape is not known. Each look-up names the shape that it misses.
-/
namespace BuildPipeline
open BuildPipeline.Text

inductive ShapeError
  | noAttribute (kind : Kind) (name : String)
  | notIterable (kind : Kind)
  | notSubscriptable (kind : Kind)
  | textIndex (kind : Kind)
  | missingKey (key : String)
  | notSequence (position : Nat)
  | notPair (position length : Nat)
  | unhashable (kind : Kind)
  | noLength (kind : Kind)
  | notText (kind : Kind)
  | noAssignment (kind : Kind)
  deriving DecidableEq

/-- The class of error that a wrong shape is reported as. -/
def ShapeError.kind : ShapeError → String
  | .noAttribute _ _ => "AttributeError"
  | .missingKey _ => "KeyError"
  | .notPair _ _ => "ValueError"
  | _ => "TypeError"

def ShapeError.message : ShapeError → String
  | .noAttribute k name => s!"'{k.fullName}' object has no attribute '{name}'"
  | .notIterable k => s!"'{k.fullName}' object is not iterable"
  | .notSubscriptable k => s!"'{k.fullName}' object is not subscriptable"
  | .textIndex .str => "string indices must be integers, not 'str'"
  | .textIndex .bytes => "byte indices must be integers or slices, not str"
  | .textIndex k => s!"{k.fullName} indices must be integers or slices, not str"
  | .missingKey key => quoted key
  | .notSequence i => s!"cannot convert dictionary update sequence element #{i} to a sequence"
  | .notPair i n => s!"dictionary update sequence element #{i} has length {n}; 2 is required"
  | .unhashable k => s!"unhashable type: '{k.fullName}'"
  | .noLength k => s!"object of type '{k.fullName}' has no len()"
  | .notText k => s!"expected string or bytes-like object, got '{k.fullName}'"
  | .noAssignment k => s!"'{k.fullName}' object does not support item assignment"

namespace Value

/-- The field of a mapping, if it has it. -/
def get : Value → String → Except ShapeError (Option Value)
  | .dict es, name => .ok (Dict.field es name)
  | v, _ => .error (.noAttribute v.kind "get")

/-- The field of a mapping, which must have it. -/
def item : Value → String → Except ShapeError Value
  | .dict es, name => match Dict.field es name with
    | some v => .ok v
    | none => .error (.missingKey name)
  | v, _ => match v.kind with
    | .list | .pair | .str | .bytes => .error (.textIndex v.kind)
    | k => .error (.notSubscriptable k)

/-- The entries of a mapping that is to be changed. -/
def asMutable : Value → Except ShapeError Dict
  | .dict es => .ok es
  | .list _ => .error (.textIndex .list)
  | v => .error (.noAssignment v.kind)

def items : Value → Except ShapeError Dict
  | .dict es => .ok es
  | v => .error (.noAttribute v.kind "items")

/-- The elements of a value in order; a text has its characters and a mapping its keys. -/
def elements : Value → Except ShapeError (List Value)
  | .list vs => .ok vs
  | .pair k v => .ok [k, v]
  | .dict es => .ok (es.map fun e => .scalar e.1)
  | .set ks => .ok (ks.map .scalar)
  | .scalar (.str s) => .ok (s.toList.map fun c => .str (String.ofList [c]))
  | .scalar (.bytes bs) => .ok (bs.map fun b => .int (Int.ofNat b.toNat))
  | v => .error (.notIterable v.kind)

/-- How many elements a value has. -/
def length : Value → Except ShapeError Nat
  | .list vs => .ok vs.length
  | .pair _ _ => .ok 2
  | .dict es => .ok es.length
  | .set ks => .ok ks.length
  | .scalar (.str s) => .ok s.length
  | .scalar (.bytes bs) => .ok bs.length
  | v => .error (.noLength v.kind)

def asText : Value → Except ShapeError String
  | .scalar (.str s) => .ok s
  | v => .error (.notText v.kind)

def asKey : Value → Except ShapeError Scalar
  | .scalar s => .ok s
  | v => .error (.unhashable v.kind)

/-- Entries from a sequence of pairs, counted from `i`. -/
def pairsFrom : Nat → Dict → List Value → Except ShapeError Dict
  | _, d, [] => .ok d
  | i, d, v :: vs =>
    match v.elements with
    | .error _ => .error (.notSequence i)
    | .ok [k, w] => do pairsFrom (i + 1) (Table.insert d (← k.asKey) w) vs
    | .ok ws => .error (.notPair i ws.length)

/-- A mapping, or a sequence of pairs read as one. -/
def toDict : Value → Except ShapeError Dict
  | .dict es => .ok es
  | v => do pairsFrom 0 [] (← v.elements)

/-- A list of texts. A text alone is a list of one, and whatever counts as false is empty. -/
def texts (v : Value) : Except ShapeError (List String) :=
  if !v.truthy then .ok []
  else match v with
    | .scalar (.str s) => .ok [s]
    | v => do return (← v.elements).map Value.text

/-- A text that may be missing; the empty one counts as missing. -/
def optionalText : Value → Option String
  | .scalar .null => none
  | v => if v.text = "" then none else some v.text

/-- The entries of a mapping with keys and values as texts. Nothing stands for no entries. -/
def textEntries (v : Value) : Except ShapeError (Table String String) := do
  let es ← (v.orElse (.dict [])).items
  return Table.ofList (es.map fun e => (e.1.text, e.2.text))

end Value

end BuildPipeline
