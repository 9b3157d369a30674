import BuildPipeline.Block.Basic
import BuildPipeline.Text.Blank

/-!
Blocks by identifier. A registry refuses blank and repeated identifiers and remembers the order of
registration; an index is lenient and keeps the first block of each identifier.
-/
namespace BuildPipeline

/-- The first value under each key, in order of first appearance. -/
def indexFirst {κ α : Type} [BEq κ] (es : List (κ × α)) : Table κ α :=
  es.foldl (fun t e => Table.insertNew t e.1 e.2) []

def Block.index (bs : List Block) : Table String Block := indexFirst (bs.map fun b => (b.id, b))

inductive RegistryError
  | blankId
  | duplicate (id : String)
  deriving DecidableEq

def RegistryError.kind : RegistryError → String
  | .blankId => "ValueError"
  | .duplicate _ => "DuplicateBlockIdError"

def RegistryError.message : RegistryError → String
  | .blankId => "block.id must be a non-empty string"
  | .duplicate id => "Duplicate block id: " ++ id

structure Registry (α : Type) where
  blocks : Table String α
  order : List String

namespace Registry
variable {α : Type}

def empty : Registry α := ⟨[], []⟩

/-- Only a text that is not blank identifies a block. -/
def add (r : Registry α) (id : Scalar) (a : α) : Except RegistryError (Registry α) :=
  match id with
  | .str id =>
    if Text.isBlankText id then .error .blankId
    else if Table.contains r.blocks id then .error (.duplicate id)
    else .ok ⟨Table.insert r.blocks id a, r.order ++ [id]⟩
  | _ => .error .blankId

def get? (r : Registry α) (id : String) : Option α := Table.get? r.blocks id

def contains (r : Registry α) (id : String) : Bool := Table.contains r.blocks id

def list (r : Registry α) : List α := r.order.filterMap r.get?

end Registry

end BuildPipeline
