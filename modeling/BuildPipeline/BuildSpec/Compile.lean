import BuildPipeline.Block.Commands
import BuildPipeline.Block.Definition
import BuildPipeline.Block.Registry
import BuildPipeline.BuildSpec.Basic

/-!
From a definition to its build specification. Custom blocks go to the phase before the build, build
blocks to the build, test blocks and then run blocks to the phase after it, in order of declaration.
A block with a fallback becomes a conditional that expands its references by one level.
-/
namespace BuildPipeline

def indent (s : String) : String := "  " ++ s

def BlockGroup.label : BlockGroup → String
  | .custom | .build => "Block"
  | .test => "Test Block"
  | .run => "Run Block"

/-- The commands of the block that a reference names; none for a reference that names no block. -/
def referenced (index : Table String Block) (ref : String) : List String :=
  ((Table.get? index ref).map Block.commands).getD []

/-- A reference that is set and not empty. -/
def setReference (ref : Option String) : Option String := ref.filter (· != "")

namespace Block

def conditional (b : Block) (label fallback : String) (index : Table String Block) :
    List String :=
  ["# " ++ label ++ ": " ++ b.id ++ " (with fallback)", "if"]
    ++ b.commands.map indent
    ++ ["then", indent ("echo \"" ++ label ++ " " ++ b.id ++ " succeeded\"")]
    ++ (((setReference b.onSuccess).map (referenced index)).getD []).map indent
    ++ ["else", indent ("echo \"" ++ label ++ " " ++ b.id ++ " failed, running fallback\"")]
    ++ (referenced index fallback).map indent
    ++ ["fi"]

/-- Package managers have no conditional: they stop the build when they fail. -/
def lines (b : Block) (label : String) (index : Table String Block) : List String :=
  match setReference b.onFailed, b.isPackageManager with
  | some fallback, false => b.conditional label fallback index
  | _, isManager =>
    ["# " ++ label ++ ": " ++ b.id]
      ++ (if isManager then ["# Package manager - fail fast on error"] else [])
      ++ b.commands

end Block

namespace Definition

def groupLines (d : Definition) (g : BlockGroup) : List String :=
  (d.blocks.filter (·.group == g.name)).flatMap fun b => b.lines g.label (Block.index d.blocks)

/-- The name and the version of a runtime, which stand around its first colon. -/
def splitRuntime (runtime : String) : String × String :=
  let cs := runtime.toList
  let version := String.ofList ((cs.dropWhile (· != ':')).drop 1)
  (String.ofList (cs.takeWhile (· != ':')), if version = "" then "latest" else version)

def installPhase (d : Definition) : Table String Phase :=
  match d.runtime with
  | some runtime => if runtime = "" then [] else [("install", ⟨[], none, [splitRuntime runtime]⟩)]
  | none => []

def commandPhase (name policy : String) (commands : List String) : Table String Phase :=
  if commands.isEmpty then [] else [(name, ⟨commands, some policy, []⟩)]

def compile (d : Definition) : BuildSpec where
  version := if d.version = "" then defaultVersion else d.version
  phases :=
    let policy := if d.onFailure = "" then abort else d.onFailure
    d.installPhase
      ++ commandPhase "pre_build" policy (d.groupLines .custom)
      ++ commandPhase "build" policy (d.groupLines .build)
      ++ commandPhase "post_build" "CONTINUE" (d.groupLines .test ++ d.groupLines .run)
  artifacts := d.artifacts
  environment := d.environment
  secrets := d.secrets
  cachePaths := d.cachePaths
  reports := d.reports

/-- Compiles a value that should be a definition. -/
def compileValue (v : Value) : Except ShapeError BuildSpec :=
  match v with
  | .dict _ => return (← read v).compile
  | v => .error (.noAttribute v.kind "version")

end Definition

end BuildPipeline
