import BuildPipeline.BuildSpec.Compile
import BuildPipeline.Json.Writer
import BuildPipeline.Yaml.Writer

/-!
Build specifications as YAML text. Whole numbers have a bound on their digits here as they have in
JSON, and a specification that holds a longer one has no text.
-/
namespace BuildPipeline

/-- Whether a scalar is a whole number with too many digits. -/
def Scalar.isLong : Scalar → Bool
  | .int n => decide (Json.maxDigits < (toString n.natAbs).toList.length)
  | _ => false

mutual

/-- Whether a whole number in a document has too many digits. -/
def Value.isLong : Value → Bool
  | .scalar s => s.isLong
  | .list vs => Value.isLongAny vs
  | .pair k v => k.isLong || v.isLong
  | .dict es => Value.isLongIn es
  | .set ks => ks.any Scalar.isLong
  | .loop _ => false

def Value.isLongAny : List Value → Bool
  | [] => false
  | v :: vs => v.isLong || Value.isLongAny vs

def Value.isLongIn : List (Scalar × Value) → Bool
  | [] => false
  | (k, v) :: es => k.isLong || v.isLong || Value.isLongIn es

end

namespace BuildSpec

def render (s : BuildSpec) : String := Yaml.write s.document

/-- The text of a specification. -/
def text (s : BuildSpec) : Except Json.WriteError String :=
  if (Value.dict s.document).isLong then .error .tooLong else .ok s.render

end BuildSpec

end BuildPipeline
