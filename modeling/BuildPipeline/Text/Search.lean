/-!
Looking for a text inside another one.
-/
namespace BuildPipeline.Text

def occursIn (p : List Char) : List Char → Bool
  | [] => p.isEmpty
  | c :: cs => p.isPrefixOf (c :: cs) || occursIn p cs

/-- Whether a text has `p` somewhere in it, letter for letter. -/
def occurs (p s : String) : Bool := occursIn p.toList s.toList

end BuildPipeline.Text
