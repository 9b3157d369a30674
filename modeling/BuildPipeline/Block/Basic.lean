import BuildPipeline.Document.Shape

/-!
Blocks: the steps of a pipeline definition. Type and group are kept as they are written, so that
an unknown one survives; `Block.type?` and `Block.group?` say which are known.
-/
namespace BuildPipeline

inductive BlockType
  | osPackages
  | nodePackages
  | customBuild
  | nodeTest
  | customTest
  | customRun
  deriving DecidableEq

def BlockType.all : List BlockType :=
  [.osPackages, .nodePackages, .customBuild, .nodeTest, .customTest, .customRun]

def BlockType.name : BlockType → String
  | .osPackages => "os_package_manager"
  | .nodePackages => "node_package_manager"
  | .customBuild => "custom_build_command"
  | .nodeTest => "node_test_command"
  | .customTest => "custom_test_command"
  | .customRun => "custom_run_command"

inductive BlockGroup
  | custom
  | build
  | test
  | run
  deriving DecidableEq

def BlockGroup.all : List BlockGroup := [.custom, .build, .test, .run]

def BlockGroup.name : BlockGroup → String
  | .custom => "custom"
  | .build => "build"
  | .test => "test"
  | .run => "run"

structure Block where
  id : String
  type : String
  group : String
  onSuccess : Option String
  onFailed : Option String
  packageManager : Option String
  packages : List String
  customCommand : List String
  testCommand : List String
  deriving DecidableEq

namespace Block

def type? (b : Block) : Option BlockType := BlockType.all.find? (·.name == b.type)

def group? (b : Block) : Option BlockGroup := BlockGroup.all.find? (·.name == b.group)

def isPackageManager (b : Block) : Bool :=
  b.type? == some .osPackages || b.type? == some .nodePackages

/-- A block without commands and references. -/
def bare (id type group : String) : Block := ⟨id, type, group, none, none, none, [], [], []⟩

def read (v : Value) : Except ShapeError Block := do
  let id ← v.item "id"
  let field (name : String) : Except ShapeError Value := return (← v.get name).getD .null
  let type := ((← v.get "block_type").getD (.str "")).text
  let group := ((← v.get "group_type").getD (.str "")).text
  return {
    id := id.text
    type
    group
    onSuccess := (← field "on_success").optionalText
    onFailed := (← field "on_failed").optionalText
    packageManager := (← field "package_manager").optionalText
    packages := ← (← field "package_list").texts
    customCommand := ← (← field "custom_command").texts
    testCommand := ← (← field "test_command").texts }

def textField (name : String) : Option String → Table String Value
  | none => []
  | some s => [(name, .str s)]

def textsField (name : String) : List String → Table String Value
  | [] => []
  | ss => [(name, .ofStrings ss)]

/-- Fields that are missing or empty are left out. -/
def document (b : Block) : Value :=
  .ofTable ([("id", .str b.id), ("block_type", .str b.type), ("group_type", .str b.group)]
    ++ textField "on_success" b.onSuccess
    ++ textField "on_failed" b.onFailed
    ++ textField "package_manager" b.packageManager
    ++ textsField "package_list" b.packages
    ++ textsField "custom_command" b.customCommand
    ++ textsField "test_command" b.testCommand)

end Block

end BuildPipeline
