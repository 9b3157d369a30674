import BuildPipeline.Block.Basic

/-!
Pipeline definitions: blocks in order of declaration together with what the build specification
takes over as it is (artifacts, variables, secrets, cache paths and reports).
-/
namespace BuildPipeline

structure Definition where
  version : String
  runtime : Option String
  blocks : List Block
  artifacts : List String
  environment : Table String String
  secrets : Table String String
  cachePaths : List String
  reports : Table String Dict
  onFailure : String
  deriving DecidableEq

namespace Definition

def defaultVersion : String := "0.2"

def abort : String := "ABORT"

/-- A definition with the default version and policy and nothing in it. -/
def empty : Definition := ⟨defaultVersion, none, [], [], [], [], [], [], abort⟩

def readReports (v : Value) : Except ShapeError (Table String Dict) := do
  let es ← (v.orElse (.dict [])).items
  return Table.ofList (← es.mapM fun e => return (e.1.text, ← e.2.toDict))

def read (v : Value) : Except ShapeError Definition := do
  let field (name : String) : Except ShapeError Value := return (← v.get name).getD .null
  let cache := (← field "cache").orElse (.dict [])
  let onFailure := (← field "on_failure").orElse (.str abort)
  let version := ((← field "version").orElse (.str defaultVersion)).text
  let runtime := (← field "runtime").optionalText
  let blocks ← (← ((← field "blocks").orElse (.list [])).elements).mapM Block.read
  let artifacts ← (← field "artifacts").texts
  let environment ← (← field "environment_variables").textEntries
  let secrets ← (← field "secrets").textEntries
  let cachePaths ← ((← cache.get "paths").getD .null).texts
  let reports ← readReports (← field "reports")
  return { version, runtime, blocks, artifacts, environment, secrets, cachePaths, reports,
           onFailure := onFailure.text }

def document (d : Definition) : Value :=
  .ofTable ([("version", .str d.version)]
    ++ Block.textField "runtime" (d.runtime.filter (· != ""))
    ++ [("blocks", .list (d.blocks.map Block.document)),
      ("artifacts", .ofStrings d.artifacts),
      ("environment_variables", .ofTexts d.environment),
      ("secrets", .ofTexts d.secrets),
      ("cache", .ofTable [("paths", .ofStrings d.cachePaths)]),
      ("reports", .ofTable (d.reports.mapValues .dict)),
      ("on_failure", .str d.onFailure)])

end Definition

end BuildPipeline
