import BuildPipeline.Document.Text

/-!
Merging configuration: mappings merge key by key, lists and scalars are replaced, and nothing gives
way to anything. A key whose value changes its type is a conflict; whole numbers and floats are of
one type.
-/
namespace BuildPipeline

inductive MergeConflict
  | root (base override : Kind)
  | key (key : Scalar) (base override : Kind)
  deriving DecidableEq

def MergeConflict.message : MergeConflict → String
  | .root a b =>
    s!"Deep-merge requer dicts no nível raiz, recebido: {a.name} vs {b.name}"
  | .key k a b => s!"Conflito de tipo na chave '{k.text}': {a.name} vs {b.name}"

def Kind.isNumber : Kind → Bool
  | .int | .float => true
  | _ => false

/-- Whether a value of one kind may replace a value of the other. -/
def Kind.agrees (a b : Kind) : Bool := a == b || a.isNumber && b.isNumber

namespace Config

mutual

/-- The value of a key that both sides have. -/
def mergeAt (k : Scalar) : Value → Value → Except MergeConflict Value
  | .scalar .null, v => .ok v
  | _, .scalar .null => .ok .null
  | .dict base, .dict es => return .dict (← mergeEntries base es)
  | v, w => if v.kind.agrees w.kind then .ok w else .error (.key k v.kind w.kind)

def mergeEntries (base : Dict) : List (Scalar × Value) → Except MergeConflict Dict
  | [] => .ok base
  | (k, w) :: es =>
    match Table.get? base k with
    | none => mergeEntries (Table.insert base k w) es
    | some v => do mergeEntries (Table.insert base k (← mergeAt k v w)) es

end

def merge : Value → Value → Except MergeConflict Dict
  | .dict base, .dict override => mergeEntries base override
  | v, w => .error (.root v.kind w.kind)

end Config

end BuildPipeline
