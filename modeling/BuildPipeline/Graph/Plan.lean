import BuildPipeline.Graph.Basic
import BuildPipeline.Text.Blank

/-!
The order in which the nodes of a graph are visited. In pre-order a node comes right after the
first node that leads to it, from each entry node on. In topological order a node comes after all
of its predecessors, and of the nodes that may come the first declared one does.
-/
namespace BuildPipeline

inductive Traversal
  | preorder
  | topological
  deriving DecidableEq

def Traversal.all : List Traversal := [.preorder, .topological]

def Traversal.name : Traversal → String
  | .preorder => "preorder"
  | .topological => "topological"

def Traversal.ofName? (s : String) : Option Traversal := all.find? (·.name == s)

inductive PlanError
  | unknownTraversal (name : String)
  | blankId
  | duplicateId (id : String)
  | unknownNode (edge ref : String)
  | cycle (ids : List String)
  deriving DecidableEq

def PlanError.kind : PlanError → String
  | .unknownTraversal _ | .blankId => "ValueError"
  | .duplicateId _ => "DuplicateNodeIdError"
  | .unknownNode _ _ => "UnknownNodeReferenceError"
  | .cycle _ => "CycleDetectedError"

def PlanError.message : PlanError → String
  | .unknownTraversal name =>
    s!"Unknown ordering '{name}', expected one of: "
      ++ ", ".intercalate (Traversal.all.map Traversal.name)
  | .blankId => "node.id must be a non-empty string"
  | .duplicateId id => "Duplicate node id: " ++ id
  | .unknownNode edge ref => s!"Edge '{edge}' references unknown node '{ref}'"
  | .cycle ids => "Cycle detected in execution graph involving nodes: " ++ ", ".intercalate ids

namespace Graph

/-- Nodes need identifiers that are neither blank nor used before. -/
def checkIdsFrom : List String → List Node → Except PlanError Unit
  | _, [] => .ok ()
  | seen, n :: ns =>
    if Text.isBlankText n.id then .error .blankId
    else if seen.contains n.id then .error (.duplicateId n.id)
    else checkIdsFrom (n.id :: seen) ns

def checkIds (g : Graph) : Except PlanError Unit := checkIdsFrom [] g.nodes

section Preorder

/-- One visit after another. `stack` holds what is still to be visited, nearest first, and `seen`
what has been visited, in order. -/
def walk (g : Graph) : Nat → List String → List String → List String
  | 0, _, seen => seen
  | _ + 1, [], seen => seen
  | fuel + 1, id :: stack, seen =>
    if seen.contains id then walk g fuel stack seen
    else walk g fuel (g.children id ++ stack) (seen ++ [id])

/-- A node and every edge are taken from the stack at most once in a walk from one entry. -/
def walkFuel (g : Graph) : Nat := g.edges.length + 2

/-- Nodes that no edge ends in. -/
def entries (g : Graph) : List String := g.ids.filter (!g.isTarget ·)

def preorderIds (g : Graph) : List String :=
  g.entries.foldl (fun seen id => g.walk g.walkFuel [id] seen) []

def preorder (g : Graph) : List Node := g.preorderIds.filterMap g.node?

end Preorder

section Topological

def checkEdge (g : Graph) (e : Edge) : Except PlanError Unit :=
  if !g.declares e.source then .error (.unknownNode e.id e.source)
  else if !g.declares e.target then .error (.unknownNode e.id e.target)
  else .ok ()

/-- Distinct pairs of places that an edge leads from and to. -/
def links (g : Graph) : List (Nat × Nat) :=
  firsts (g.edges.map fun e => (g.ids.idxOf e.source, g.ids.idxOf e.target))

/-- Places whose predecessors are all scheduled, in ascending order, and for every place the number
of its predecessors that are not. -/
structure Frontier where
  ready : List Nat
  waiting : List Nat

def insertPlace (i : Nat) : List Nat → List Nat
  | [] => [i]
  | j :: js => if i ≤ j then i :: j :: js else j :: insertPlace i js

/-- One predecessor of a place is scheduled. -/
def Frontier.release (f : Frontier) (i : Nat) : Frontier :=
  let n := f.waiting.getD i 0 - 1
  ⟨if n = 0 then insertPlace i f.ready else f.ready, f.waiting.set i n⟩

def successors (links : List (Nat × Nat)) (i : Nat) : List Nat :=
  (links.filter (·.1 == i)).map (·.2)

/-- Takes the first ready place until none is ready. `next i` lists the successors of a place. -/
def schedule (next : Nat → List Nat) : Nat → Frontier → List Nat
  | 0, _ => []
  | fuel + 1, f =>
    match f.ready with
    | [] => []
    | i :: ready => i :: schedule next fuel ((next i).foldl Frontier.release ⟨ready, f.waiting⟩)

/-- The frontier of `n` places before anything is scheduled. -/
def frontier (links : List (Nat × Nat)) (n : Nat) : Frontier :=
  let places := List.range n
  let waiting := places.map fun i => links.countP (·.2 == i)
  ⟨places.filter fun i => waiting.getD i 0 == 0, waiting⟩

def placesVisiting (g : Graph) (next : Nat → List Nat) : List Nat :=
  schedule next g.nodes.length (frontier g.links g.nodes.length)

/-- The plan when the successors of each place are visited as `next` lists them. -/
def topologicalVisiting (g : Graph) (next : Nat → List Nat) : Except PlanError (List Node) := do
  g.edges.forM g.checkEdge
  let places := g.placesVisiting next
  let stuck := (List.range g.nodes.length).filter (!places.contains ·)
  if stuck.isEmpty then return places.filterMap (g.nodes[·]?)
  else throw (.cycle (stuck.filterMap fun i => (g.nodes[i]?).map (·.id)))

def topological (g : Graph) : Except PlanError (List Node) :=
  let links := g.links
  g.topologicalVisiting (successors links)

end Topological

def plan (g : Graph) (t : Traversal) : Except PlanError (List Node) := do
  g.checkIds
  match t with
  | .preorder => return g.preorder
  | .topological => g.topological

def planNamed (g : Graph) (name : String) : Except PlanError (List Node) :=
  match Traversal.ofName? name with
  | none => .error (.unknownTraversal name)
  | some t => g.plan t

end Graph

end BuildPipeline
