import BuildPipeline.Document.Value

/-!
Documents in memory, by collection and key. A document that is null counts as missing.
-/
namespace BuildPipeline

abbrev MemoryStore := Table String (Table String Value)

/-- A document, unless it is null. -/
def Value.present? : Value → Option Value
  | .scalar .null => none
  | v => some v

namespace MemoryStore

def empty : MemoryStore := []

def collection (s : MemoryStore) (c : String) : Table String Value := Table.getD s c []

def get (s : MemoryStore) (c k : String) : Option Value :=
  (Table.get? (s.collection c) k).bind Value.present?

def put (s : MemoryStore) (c k : String) (v : Value) : MemoryStore :=
  Table.modify s c [] fun t => Table.insert t k v

/-- The documents of a collection in the order in which their keys first came. -/
def list (s : MemoryStore) (c : String) : List Value := (s.collection c).values

end MemoryStore

end BuildPipeline
