import BuildPipeline.BuildSpec.Compile
import BuildPipeline.Config.Settings
import BuildPipeline.Graph.Basic

/-!
Build nodes of a graph. A build node becomes a definition of two blocks, one that installs and one
that builds, so that one compiler makes every build specification.
-/
namespace BuildPipeline

namespace Node

def field (n : Node) (name : String) : Value := Dict.fieldD n.data name

def webpackCommands (n : Node) : List String :=
  let config := n.field "config_file"
  ["echo \"Building with Webpack...\"",
    "npx webpack" ++ (if config.truthy then " --config " ++ config.text else "")
      ++ " --mode " ++ ((n.field "mode").orElse (.str "production")).text]

def viteCommands (n : Node) : List String :=
  let mode := n.field "mode"
  ["echo \"Building with Vite...\"",
    "npx vite build" ++ (if mode.truthy then " --mode " ++ mode.text else "")]

def customCommands (n : Node) : Except ShapeError (List String) :=
  let commands := n.field "commands"
  if commands.truthy then commands.texts
  else .ok ["echo \"Running custom build...\"", "npm run build"]

/-- The commands of a build node; any other node has those of a plain build. -/
def buildCommands (n : Node) : Except ShapeError (List String) :=
  match n.type? with
  | some .buildWebpack => .ok n.webpackCommands
  | some .buildVite => .ok n.viteCommands
  | some .buildCustom => n.customCommands
  | _ => .ok ["echo \"Running default build...\"", "npm run build"]

def installBlock (n : Node) (manager : String) : Block :=
  { Block.bare (n.id ++ "-install") BlockType.nodePackages.name BlockGroup.custom.name with
    packageManager := some manager }

def buildBlock (n : Node) (commands : List String) : Block :=
  { Block.bare (n.id ++ "-build") BlockType.customBuild.name BlockGroup.build.name with
    customCommand := commands }

def buildDefinition (n : Node) (s : BuildSettings) : Except ShapeError Definition := do
  let version := ((n.field "node_version").orElse (.str s.runtimeVersion)).text
  let manager := ((n.field "package_manager").orElse (.str s.packageManager)).text
  let commands ← n.buildCommands
  return { Definition.empty with
    runtime := some ("nodejs:" ++ version)
    blocks := [n.installBlock manager, n.buildBlock commands]
    artifacts := ["**/*"] }

def buildSpec (n : Node) (s : BuildSettings) : Except ShapeError BuildSpec :=
  return (← n.buildDefinition s).compile

end Node

end BuildPipeline
