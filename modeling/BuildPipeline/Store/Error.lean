import BuildPipeline.Files.Error
import BuildPipeline.Json.Writer

/-!
What can go wrong with a store.
-/
namespace BuildPipeline
open BuildPipeline.Text

inductive StoreError
  | invalidName (name : String)
  | unavailable (collection key : String)
  | writing (e : Json.WriteError)
  | reading (e : Json.ReadError)
  | opening (e : Files.OpenError)
  deriving DecidableEq

def StoreError.kind : StoreError → String
  | .invalidName _ => "ValueError"
  | .unavailable _ _ => "OSError"
  | .writing e => e.kind
  | .reading e => e.kind
  | .opening e => e.kind

def StoreError.message : StoreError → String
  | .invalidName name => "Invalid document store name: " ++ quoted name
  | .unavailable collection key => s!"store unavailable: {collection}/{key}"
  | .writing e => e.message
  | .reading e => e.message
  | .opening e => e.message

end BuildPipeline
