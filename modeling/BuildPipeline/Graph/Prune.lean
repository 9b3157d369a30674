import BuildPipeline.Graph.Basic

/-!
The part of a graph that can be planned: the first declaration of each node and the edges between
declared nodes.
-/
namespace BuildPipeline.Graph

def firstNodesFrom : List String → List Node → List Node
  | _, [] => []
  | seen, n :: ns =>
    if seen.contains n.id then firstNodesFrom seen ns else n :: firstNodesFrom (n.id :: seen) ns

def firstNodes (ns : List Node) : List Node := firstNodesFrom [] ns

def prune (g : Graph) : Graph :=
  ⟨firstNodes g.nodes, g.edges.filter fun e => g.declares e.source && g.declares e.target⟩

/-- Whether there is nothing to prune. -/
def isPruned (g : Graph) : Bool :=
  g.prune.nodes.length == g.nodes.length && g.prune.edges.length == g.edges.length

end BuildPipeline.Graph
