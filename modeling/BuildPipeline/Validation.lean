import BuildPipeline.Block.Definition
import BuildPipeline.Block.Registry
import BuildPipeline.Graph.Basic

/-!
What is wrong with a definition or a graph, all at once: repeated and blank identifiers, unknown
types and groups, and references to what is not declared. Cycles are not looked for.
-/
namespace BuildPipeline

inductive ReferenceField
  | onSuccess
  | onFailed
  deriving DecidableEq

def ReferenceField.name : ReferenceField → String
  | .onSuccess => "on_success"
  | .onFailed => "on_failed"

inductive EdgeEnd
  | source
  | target
  deriving DecidableEq

def EdgeEnd.name : EdgeEnd → String
  | .source => "source"
  | .target => "target"

inductive Issue
  | duplicateBlock (id : String)
  | invalidBlock (id : String)
  | unknownBlockType (id type : String)
  | unknownGroup (id group : String)
  | unresolved (id : String) (field : ReferenceField) (ref : String)
  | duplicateNode (id : String)
  | unknownNodeType (id type : String)
  | unknownEndpoint (edge : String) (place : EdgeEnd) (ref : String)
  deriving DecidableEq

namespace Issue

def code : Issue → String
  | .duplicateBlock _ => "duplicate_block_id"
  | .invalidBlock _ => "invalid_block_id"
  | .unknownBlockType _ _ => "unknown_block_type"
  | .unknownGroup _ _ => "unknown_group_type"
  | .unresolved _ _ _ => "unresolved_reference"
  | .duplicateNode _ => "duplicate_node_id"
  | .unknownNodeType _ _ => "unknown_node_type"
  | .unknownEndpoint _ _ _ => "unknown_edge_endpoint"

def message : Issue → String
  | .duplicateBlock id => (RegistryError.duplicate id).message
  | .invalidBlock _ => RegistryError.blankId.message
  | .unknownBlockType id type => s!"Block {id} has unknown type '{type}'"
  | .unknownGroup id group => s!"Block {id} has unknown group '{group}'"
  | .unresolved id field ref => s!"Block {id} {field.name} references unknown block '{ref}'"
  | .duplicateNode id => "Duplicate node id: " ++ id
  | .unknownNodeType id type => s!"Node {id} has unknown type '{type}'"
  | .unknownEndpoint edge place ref =>
    s!"Edge {edge} {place.name} references unknown node '{ref}'"

/-- Where the issue is. -/
def location : Issue → Table String Value
  | .duplicateBlock id | .invalidBlock id => [("block_id", .str id)]
  | .unknownBlockType id value | .unknownGroup id value =>
    [("block_id", .str id), ("value", .str value)]
  | .unresolved id field ref =>
    [("block_id", .str id), ("field", .str field.name), ("value", .str ref)]
  | .duplicateNode id => [("node_id", .str id)]
  | .unknownNodeType id type => [("node_id", .str id), ("value", .str type)]
  | .unknownEndpoint edge place ref =>
    [("edge_id", .str edge), ("field", .str place.name), ("value", .str ref)]

def document (i : Issue) : Value :=
  .ofTable ([("code", .str i.code), ("message", .str i.message)] ++ i.location)

/-- The node that an issue is about; edges have none. -/
def node? : Issue → Option String
  | .duplicateNode id | .unknownNodeType id _ => some id
  | _ => none

end Issue

namespace Definition

/-- The issues of one block that the blocks before it have been registered for. -/
def blockIssues (r : Registry Block) (b : Block) : Registry Block × List Issue :=
  let (r, found) := match r.add (.str b.id) b with
    | .ok r => (r, [])
    | .error (.duplicate id) => (r, [Issue.duplicateBlock id])
    | .error .blankId => (r, [.invalidBlock b.id])
  (r, found
    ++ (if b.type?.isNone then [.unknownBlockType b.id b.type] else [])
    ++ (if b.group?.isNone then [.unknownGroup b.id b.group] else []))

def registerFrom (r : Registry Block) : List Block → Registry Block × List Issue
  | [] => (r, [])
  | b :: bs =>
    let (r, here) := blockIssues r b
    let (r, rest) := registerFrom r bs
    (r, here ++ rest)

def unresolvedIssue (r : Registry Block) (b : Block) (field : ReferenceField)
    (ref : Option String) : List Issue :=
  match ref with
  | some ref => if r.contains ref then [] else [.unresolved b.id field ref]
  | none => []

def referenceIssues (r : Registry Block) (b : Block) : List Issue :=
  unresolvedIssue r b .onSuccess b.onSuccess ++ unresolvedIssue r b .onFailed b.onFailed

def issues (d : Definition) : List Issue :=
  let (r, found) := registerFrom .empty d.blocks
  found ++ d.blocks.flatMap (referenceIssues r)

end Definition

namespace Graph

def nodeIssuesFrom : List String → List Node → List Issue
  | _, [] => []
  | seen, n :: ns =>
    (if seen.contains n.id then [.duplicateNode n.id] else [])
      ++ (if n.type?.isNone then [.unknownNodeType n.id n.type] else [])
      ++ nodeIssuesFrom (n.id :: seen) ns

def edgeIssues (g : Graph) (e : Edge) : List Issue :=
  (if g.declares e.source then [] else [.unknownEndpoint e.id .source e.source])
    ++ (if g.declares e.target then [] else [.unknownEndpoint e.id .target e.target])

def issues (g : Graph) : List Issue := nodeIssuesFrom [] g.nodes ++ g.edges.flatMap g.edgeIssues

end Graph

end BuildPipeline
