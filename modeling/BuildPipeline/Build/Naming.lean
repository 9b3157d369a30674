import BuildPipeline.Document.Shape

/-!
Names of build projects and of the places where builds leave their artifacts.
-/
namespace BuildPipeline

def isProjectChar (c : Char) : Bool :=
  'a' ≤ c && c ≤ 'z' || 'A' ≤ c && c ≤ 'Z' || '0' ≤ c && c ≤ '9' || c == '-'

/-- Whatever a project name may not hold becomes a hyphen. -/
def sanitize (s : String) : String :=
  String.ofList (s.toList.map fun c => if isProjectChar c then c else '-')

def projectName (lead : String) (project user : Value) : Except ShapeError String := do
  return s!"{lead}-{sanitize (← project.asText)}-{user.text}"

def artifactLocation (project build : String) : String := s!"{project}-artifacts/{build}"

end BuildPipeline
