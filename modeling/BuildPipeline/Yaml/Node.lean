import BuildPipeline.Yaml.Tag

/-!
Nodes of a YAML document, with aliases replaced by what they name. `loop` stands for an alias inside
the collection that it names, `broken` for a mapping whose merge key names no mapping.
-/
namespace BuildPipeline.Yaml

inductive Node
  | scalar (tag : Tag) (text : List Char)
  | seq (tag : Tag) (items : List Node)
  | map (tag : Tag) (entries : List (Node × Node))
  | loop (tag : Tag) (isMap : Bool)
  | broken (tag : Tag)

namespace Node

def tag : Node → Tag
  | .scalar t _ | .seq t _ | .map t _ | .loop t _ | .broken t => t

/-- A node that is not written. -/
def absent : Node := .scalar (.ofPlain []) []

/-- Whether the mappings under a tag take merge keys. -/
def mergesUnder (t : Tag) : Bool := t == .map || t == .set

/-- The entries that a node lends to a mapping that merges it. -/
def lent : Node → Option (List (Node × Node))
  | .map _ es => some es
  | .loop _ true => some []
  | _ => none

/-- The entries that a merge key brings in: those of a mapping, or of several, of which the first
ones win. -/
def merged : Node → Option (List (Node × Node))
  | .seq _ ns => (ns.reverse.mapM lent).map List.flatten
  | n => n.lent

/-- A key that is an equals sign counts as a text. -/
def plainKey (n : Node) : Node :=
  match n with
  | .scalar .value cs => .scalar .str cs
  | n => n

/-- Merged entries and then own ones. -/
def mergeEntries (es : List (Node × Node)) : Option (List (Node × Node)) := do
  let sources ← (es.filter (·.1.tag == .merge)).mapM fun e => e.2.merged
  let own := (es.filter (·.1.tag != .merge)).map fun e => (e.1.plainKey, e.2)
  some (sources.flatten ++ own)

mutual

/-- Carries out the merges of every mapping. -/
def resolveMerges : Node → Node
  | .seq t ns => .seq t (resolveItems ns)
  | .map t es =>
    let es := resolveEntries es
    if mergesUnder t then
      match mergeEntries es with
      | some es => .map t es
      | none => .broken t
    else .map t es
  | n => n

def resolveItems : List Node → List Node
  | [] => []
  | n :: ns => resolveMerges n :: resolveItems ns

def resolveEntries : List (Node × Node) → List (Node × Node)
  | [] => []
  | (k, v) :: es => (resolveMerges k, resolveMerges v) :: resolveEntries es

end

end Node

end BuildPipeline.Yaml
