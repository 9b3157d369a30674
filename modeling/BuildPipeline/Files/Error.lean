import BuildPipeline.Text.Quoted

/-!
What a system says about a path that cannot be opened as a file.
-/
namespace BuildPipeline.Files
open BuildPipeline.Text

inductive OpenError
  | missing (path : String)
  | folder (path : String)
  deriving DecidableEq

def OpenError.kind : OpenError → String
  | .missing _ => "FileNotFoundError"
  | .folder _ => "IsADirectoryError"

def OpenError.message : OpenError → String
  | .missing path => "[Errno 2] No such file or directory: " ++ quoted path
  | .folder path => "[Errno 21] Is a directory: " ++ quoted path

end BuildPipeline.Files
