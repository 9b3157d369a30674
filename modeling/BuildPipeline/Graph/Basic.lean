import BuildPipeline.Document.Shape
import BuildPipeline.Graph.FieldName

/-!
Execution graphs: nodes in order of declaration and directed edges. The type of a node is kept as
it is written, editor spellings apart; `Node.type?` says which types are known.
-/
namespace BuildPipeline

inductive NodeType
  | start
  | pipelineStart
  | finish
  | buildWebpack
  | buildVite
  | buildCustom
  | deploy
  | testJest
  | testMocha
  | testVitest
  deriving DecidableEq

namespace NodeType

def all : List NodeType :=
  [.start, .pipelineStart, .finish, .buildWebpack, .buildVite, .buildCustom, .deploy, .testJest,
    .testMocha, .testVitest]

def name : NodeType → String
  | .start => "start"
  | .pipelineStart => "pipeline_start"
  | .finish => "end"
  | .buildWebpack => "build_webpack"
  | .buildVite => "build_vite"
  | .buildCustom => "build_custom"
  | .deploy => "deploy"
  | .testJest => "test_jest"
  | .testMocha => "test_mocha"
  | .testVitest => "test_vitest"

/-- The spelling that graph editors save. -/
def editorName : NodeType → String
  | .start => "startNode"
  | .pipelineStart => "pipelineStart"
  | .finish => "endNode"
  | .buildWebpack => "buildWebpack"
  | .buildVite => "buildVite"
  | .buildCustom => "buildCustom"
  | .deploy => "deployNode"
  | .testJest => "testJest"
  | .testMocha => "testMocha"
  | .testVitest => "testVitest"

def ofName? (s : String) : Option NodeType := all.find? (·.name == s)

/-- The type under its own name, if `s` is an editor spelling. -/
def canonical (s : String) : String :=
  match all.find? (·.editorName == s) with
  | some t => t.name
  | none => s

end NodeType

structure Node where
  id : String
  type : String
  data : Dict
  deriving DecidableEq

structure Edge where
  id : String
  source : String
  target : String
  deriving DecidableEq

structure Graph where
  nodes : List Node
  edges : List Edge
  deriving DecidableEq

def Node.type? (n : Node) : Option NodeType := NodeType.ofName? n.type

def Node.read (v : Value) : Except ShapeError Node := do
  let type := ((← v.get "type").getD (.str "")).text
  let id := (← v.item "id").text
  let data ← (((← v.get "data").getD .null).orElse (.dict [])).toDict
  return ⟨id, NodeType.canonical type, normalizeFields data⟩

/-- An edge without an identifier is named for its ends. -/
def Edge.read (v : Value) : Except ShapeError Edge := do
  let source := (← v.item "source").text
  let target := (← v.item "target").text
  let id := ((← v.get "id").getD .null).orElse (.str (source ++ "->" ++ target))
  return ⟨id.text, source, target⟩

def Graph.read (v : Value) : Except ShapeError Graph := do
  let list (name : String) : Except ShapeError (List Value) := do
    (((← v.get name).getD .null).orElse (.list [])).elements
  let nodes ← (← list "nodes").mapM Node.read
  let edges ← (← list "edges").mapM Edge.read
  return ⟨nodes, edges⟩

namespace Graph

def ids (g : Graph) : List String := g.nodes.map (·.id)

def declares (g : Graph) (id : String) : Bool := g.ids.contains id

/-- The first node of an identifier. -/
def node? (g : Graph) (id : String) : Option Node := g.nodes.find? (·.id == id)

/-- Whether some edge ends in a node. -/
def isTarget (g : Graph) (id : String) : Bool := g.edges.any (·.target == id)

end Graph

/-- The first occurrence of each element, in order. -/
def firsts {α : Type} [BEq α] (as : List α) : List α :=
  as.foldl (fun seen a => if seen.contains a then seen else seen ++ [a]) []

/-- Declared targets of the edges from a node, in order of first mention. -/
def Graph.children (g : Graph) (id : String) : List String :=
  firsts ((g.edges.filter fun e => e.source == id && g.declares e.target).map (·.target))

end BuildPipeline
