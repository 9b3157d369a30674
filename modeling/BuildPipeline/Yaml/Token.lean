/-!
Tokens of YAML texts.
-/
namespace BuildPipeline.Yaml

inductive Directive
  | version (major : Nat)
  | tag (handle expansion : String)
  | unknown
  deriving DecidableEq

inductive Token
  | streamStart
  | streamEnd
  | directive (d : Directive)
  | documentStart
  | documentEnd
  | blockSequenceStart
  | blockMappingStart
  | blockEnd
  | flowSequenceStart
  | flowSequenceEnd
  | flowMappingStart
  | flowMappingEnd
  | blockEntry
  | flowEntry
  | key
  | value
  | alias (name : String)
  | anchor (name : String)
  | tag (handle : Option String) (suffix : String)
  | scalar (text : List Char) (plain : Bool)
  deriving DecidableEq

end BuildPipeline.Yaml
