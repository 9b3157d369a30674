import BuildPipeline.Document.Text
import BuildPipeline.Text.LowerCase

/-!
Names of fields in snake case. Editors spell a field in any case; the engine knows one spelling. A
field that is spelled in snake case wins over its other spellings, and of those the first one wins.
-/
namespace BuildPipeline
open BuildPipeline.Text

def isLowerOrDigit (c : Char) : Bool := 'a' ≤ c && c ≤ 'z' || '0' ≤ c && c ≤ '9'

def isCapital (c : Char) : Bool := 'A' ≤ c && c ≤ 'Z'

/-- A low line between a small letter or a digit and the capital behind it. -/
def splitWords : Char → List Char → List Char
  | _, [] => []
  | p, c :: cs =>
    if isLowerOrDigit p && isCapital c then '_' :: c :: splitWords c cs else c :: splitWords c cs

def snake (s : String) : String := lower (String.ofList (splitWords ' ' s.toList))

/-- Sub-documents whose keys are fields as well. -/
def nestedFields : List String := ["deployment_strategy", "rollback_config"]

/-- Whether a key is a name in its own spelling. -/
def isName (k : Scalar) (name : String) : Bool := decide (k = .str name)

mutual

/-- Entries under their field names, added to those before. -/
def addFields (known : Dict) : List (Scalar × Value) → Dict
  | [] => known
  | (k, v) :: es =>
    let name := snake k.text
    if Table.contains known (.str name) && !isName k name then addFields known es
    else addFields (Dict.set known name (fieldValue name v)) es

def fieldValue (name : String) : Value → Value
  | .dict es => if nestedFields.contains name then .dict (addFields [] es) else .dict es
  | v => v

end

def normalizeFields (d : Dict) : Dict := addFields [] d

end BuildPipeline
