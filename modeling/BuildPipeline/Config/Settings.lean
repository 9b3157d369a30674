import BuildPipeline.Document.Shape
import BuildPipeline.Graph.Plan
import BuildPipeline.Text.Blank

/-!
Settings from a configuration. A key or section that is missing has its default, one that is not
known is passed over, and a value outside its domain is an error.
-/
namespace BuildPipeline

structure BuildSettings where
  projectPrefix : String
  runtimeVersion : String
  packageManager : String
  deriving DecidableEq

structure RetrySettings where
  maxAttempts : Int
  baseDelayMs : Int
  maxDelayMs : Int
  exponentialBackoff : Bool
  deriving DecidableEq

structure Settings where
  strictValidation : Bool
  ordering : Traversal
  build : BuildSettings
  retry : RetrySettings
  deriving DecidableEq

def BuildSettings.default : BuildSettings := ⟨"blockci", "18", "npm"⟩

def RetrySettings.default : RetrySettings := ⟨3, 1000, 30000, true⟩

def Settings.default : Settings := ⟨false, .preorder, .default, .default⟩

inductive SettingError
  | shape (e : ShapeError)
  | notMapping (name : String) (kind : Kind)
  | notBool (path : String) (v : Value)
  | notText (path : String) (v : Value)
  | notOrdering (path : String) (v : Value)
  | notInteger (path : String) (least : Int) (v : Value)
  | delaysCross
  deriving DecidableEq

def SettingError.kind : SettingError → String
  | .shape e => e.kind
  | _ => "InvalidSettingError"

def SettingError.message : SettingError → String
  | .shape e => e.message
  | .notMapping name k => s!"Seção '{name}' deve ser dict, recebido: {k.name}"
  | .notBool path v => s!"'{path}' deve ser bool, recebido: {v.literal}"
  | .notText path v => s!"'{path}' deve ser string não vazia, recebido: {v.literal}"
  | .notOrdering path v =>
    let names := ", ".intercalate (Traversal.all.map Traversal.name)
    s!"'{path}' deve ser um de {names}, recebido: {v.literal}"
  | .notInteger path least v => s!"'{path}' deve ser inteiro >= {least}, recebido: {v.literal}"
  | .delaysCross => "'retry.max_delay_ms' não pode ser menor que 'retry.base_delay_ms'"

namespace Settings

/-- A section by name. One that is missing or null has no keys. -/
def sectionOf (config : Value) (name : String) : Except SettingError Dict := do
  match (← (config.get name).mapError .shape).getD .null with
  | .scalar .null => .ok []
  | .dict d => .ok d
  | v => .error (.notMapping name v.kind)

def boolAt (path : String) (d : Dict) (key : String) (fallback : Bool) :
    Except SettingError Bool :=
  match (Dict.field d key).getD (.bool fallback) with
  | .scalar (.bool b) => .ok b
  | v => .error (.notBool (path ++ "." ++ key) v)

/-- Numbers are taken as they are written. -/
def textAt (path : String) (d : Dict) (key fallback : String) : Except SettingError String :=
  let v : Value := match (Dict.field d key).getD (.str fallback) with
    | .scalar (.int n) => .str (Scalar.int n).text
    | .scalar (.float x) => .str (Scalar.float x).text
    | v => v
  match v with
  | .scalar (.str s) =>
    if Text.isBlankText s then .error (.notText (path ++ "." ++ key) v) else .ok s
  | v => .error (.notText (path ++ "." ++ key) v)

def orderingAt (path : String) (d : Dict) (key : String) (fallback : Traversal) :
    Except SettingError Traversal :=
  match (Dict.field d key).getD (.str fallback.name) with
  | .scalar (.str s) =>
    match Traversal.ofName? s with
    | some t => .ok t
    | none => .error (.notOrdering (path ++ "." ++ key) (.str s))
  | v => .error (.notOrdering (path ++ "." ++ key) v)

def intAt (path : String) (d : Dict) (key : String) (fallback least : Int) :
    Except SettingError Int :=
  match (Dict.field d key).getD (.int fallback) with
  | .scalar (.int n) =>
    if n < least then .error (.notInteger (path ++ "." ++ key) least (.int n)) else .ok n
  | v => .error (.notInteger (path ++ "." ++ key) least v)

def resolve (config : Value) : Except SettingError Settings := do
  let config := config.orElse (.dict [])
  let engine ← sectionOf config "engine"
  let build ← sectionOf config "build"
  let retry ← sectionOf config "retry"
  let maxAttempts ← intAt "retry" retry "max_attempts" 3 1
  let baseDelayMs ← intAt "retry" retry "base_delay_ms" 1000 0
  let maxDelayMs ← intAt "retry" retry "max_delay_ms" 30000 0
  let exponentialBackoff ← boolAt "retry" retry "exponential_backoff" true
  if maxDelayMs < baseDelayMs then throw .delaysCross
  let strictValidation ← boolAt "engine" engine "strict_validation" false
  let ordering ← orderingAt "engine" engine "ordering" .preorder
  let projectPrefix ← textAt "build" build "project_prefix" "blockci"
  let runtimeVersion ← textAt "build" build "runtime_version" "18"
  let packageManager ← textAt "build" build "package_manager" "npm"
  return { strictValidation, ordering
           build := { projectPrefix, runtimeVersion, packageManager }
           retry := { maxAttempts, baseDelayMs, maxDelayMs, exponentialBackoff } }

end Settings

end BuildPipeline
