import BuildPipeline.Block.Basic

/-!
The command lines that one block contributes. A package manager that is not named and a type that
is not known contribute none.
-/
namespace BuildPipeline

/-- Whether a manager refreshes its index before it installs, as `apt` and its kin do. -/
def refreshesIndex (manager : String) : Bool := manager == "apt" || manager == "apt-get"

def osPackageCommands (manager : String) : List String → List String
  | [] => [manager ++ " update -y"]
  | packages =>
    (if refreshesIndex manager then [manager ++ " update -y"] else [])
      ++ [manager ++ " install -y " ++ " ".intercalate packages]

def nodePackageCommands (manager : String) : List String → List String
  | [] => [manager ++ " install"]
  | packages => [manager ++ " install " ++ " ".intercalate packages]

namespace Block

/-- The package manager of a block, if it is named. -/
def manager? (b : Block) : Option String := b.packageManager.filter (· != "")

def commands (b : Block) : List String :=
  match b.type? with
  | some .osPackages => (b.manager?.map (osPackageCommands · b.packages)).getD []
  | some .nodePackages => (b.manager?.map (nodePackageCommands · b.packages)).getD []
  | some .customBuild | some .customTest | some .customRun => b.customCommand
  | some .nodeTest => b.testCommand
  | none => []

end Block

end BuildPipeline
