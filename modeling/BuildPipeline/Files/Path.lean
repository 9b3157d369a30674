/-!
Paths of files. Empty steps and single dots do not count; a step up does, because only the folders
themselves say where it leads.
-/
namespace BuildPipeline.Files

/-- The root of a relative path is empty; that of an absolute one is one slash or two. -/
structure Path where
  root : String
  steps : List String
  deriving DecidableEq

/-- The parts of a text between slashes. -/
def segments : List Char → List (List Char)
  | [] => [[]]
  | '/' :: cs => [] :: segments cs
  | c :: cs => match segments cs with
    | [] => [[c]]
    | s :: ss => (c :: s) :: ss

def rootOf : List Char → String
  | '/' :: '/' :: '/' :: _ => "/"
  | '/' :: '/' :: _ => "//"
  | '/' :: _ => "/"
  | _ => ""

/-- Whether a part of a path is a step. -/
def isStep (s : String) : Bool := s != "" && s != "."

namespace Path

def ofText (s : String) : Path :=
  ⟨rootOf s.toList, ((segments s.toList).map String.ofList).filter isStep⟩

def text (p : Path) : String :=
  if p.root = "" ∧ p.steps = [] then "." else p.root ++ "/".intercalate p.steps

/-- An absolute path leads away from where it is appended. -/
def append (p q : Path) : Path := if q.root = "" then ⟨p.root, p.steps ++ q.steps⟩ else q

instance : Append Path := ⟨append⟩

def name (p : Path) : String := p.steps.getLast?.getD ""

/-- The name from its last dot on. A dot at either end of the name starts no suffix. -/
def suffix (p : Path) : String :=
  let cs := p.name.toList
  let tail := cs.reverse.takeWhile (· != '.')
  if cs.contains '.' && tail.length + 1 < cs.length && !tail.isEmpty then
    String.ofList ('.' :: tail.reverse)
  else ""

end Path

end BuildPipeline.Files
