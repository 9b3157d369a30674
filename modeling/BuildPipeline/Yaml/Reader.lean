import BuildPipeline.Yaml.Content
import BuildPipeline.Yaml.Node.Reader

/-!
Reading YAML texts of one document.
-/
namespace BuildPipeline.Yaml

/-- Whether a text may hold a character. -/
def isReadable (c : Char) : Bool :=
  let n := c.toNat
  n == 0x09 || n == 0x0A || n == 0x0D || 0x20 ≤ n && n ≤ 0x7E || n == 0x85
    || 0xA0 ≤ n && n ≤ 0xD7FF || 0xE000 ≤ n && n ≤ 0xFFFD || 0x10000 ≤ n

/-- The value of a text; null when there is no document in it. -/
def readChars (cs : List Char) : Except ReadError Value := do
  if cs.all isReadable then
    match ← Node.read? cs with
    | some n => n.value
    | none => return .null
  else throw .characters

def read (s : String) : Except ReadError Value := readChars s.toList

end BuildPipeline.Yaml
