import BuildPipeline.Engine.Dispatch
import BuildPipeline.Graph.Prune

/-!
Runs of the engine. A run loads a graph, checks it, plans it, and then visits one node after
another; the first failure ends it. The record of the run is put into the store after every change,
and a store that fails leaves nothing but a log entry.
-/
namespace BuildPipeline
open BuildPipeline.Time

def pipelinesCollection : String := "pipelines"

def executionsCollection : String := "executions"

/-- What the log calls the engine itself. -/
def engineName : String := "engine"

/-- An engine. `clock n` is reading number `n` of the clock, and `executionId n` the identifier
number `n`, both counted from 0. -/
structure Executor where
  services : Services
  configHash : Value
  clock : Nat → Except Failure Moment
  executionId : Nat → String
  logTime : Moment

/-- What the store is given of a run. -/
structure RunDocument where
  record : Record
  snapshot : Dict
  warnings : Table Scalar (List Value)
  log : List Dict
  deriving DecidableEq

def RunDocument.document (d : RunDocument) : Dict :=
  Table.union d.record.document (Dict.of [
    ("context", .dict d.snapshot),
    ("warnings", .dict (d.warnings.mapValues .list)),
    ("log", .list (d.log.map .dict))])

/-- A document and where it was to be put. -/
structure Filing where
  collection : String
  key : String
  document : RunDocument
  deriving DecidableEq

/-- What outlives a run: the journal, the store, what the store was given, and how often the clock
was read and identifiers were issued. -/
structure World where
  journal : Journal
  store : Store
  filed : List Filing
  ticks : Nat
  issued : Nat

def World.start (store : Store) : World := ⟨.empty, store, [], 0, 0⟩

/-- A run under way. -/
structure Run where
  id : String
  world : World
  context : Context
  record : Record

/-- A step keeps what it did before it failed. -/
abbrev RunStep := EStateM Failure Run

/-- A run that got as far as a record, with its outcome. -/
structure FinishedRun where
  outcome : Except Failure Unit
  id : String
  context : Context
  record : Record

/-- What is written down about a failure at a node. Details that name a node are left alone. -/
def Failure.payload (node : String) : Failure → Except ShapeError ErrorPayload
  | .report r => do
    let details ← (r.details.orElse (.dict [])).toDict
    return {
      type := (r.family.code?.map ErrorCode.name).getD r.name
      message := .str (if r.message = "" then "Erro de execução" else r.message)
      details := Table.insertNew details (.str "node_id") (.str node)
      hint := r.hint }
  | e => .ok (.execution (.str node) (.str e.kind) (.str e.message)
    (.str ErrorCode.execution.hint))

namespace Run

def document (r : Run) : RunDocument :=
  ⟨r.record, r.context.snapshot, r.context.warnings, r.context.events⟩

def log (r : Run) (node level : String) (message : Value) (more : Table String Value) : Run :=
  { r with context := r.context.log (.str node) (.str level) message (Dict.of more) }

/-- Puts the record into the store as well as can be. -/
def persist (r : Run) : Run :=
  let filing : Filing := ⟨executionsCollection, r.id, r.document⟩
  let filed := r.world.filed ++ [filing]
  match (Store.put filing.collection filing.key (.dict filing.document.document)).run
      r.world.store with
  | .ok _ store => { r with world := { r.world with store, filed } }
  | .error e store =>
    { r with world := { r.world with store, filed } }.log engineName "warning"
      (.str ("Failed to persist execution record: " ++ e.message)) [("exc_type", .str e.kind)]

/-- A step on the record. -/
def onRecord (f : RecordStep Unit) : RunStep Unit := do
  let r ← get
  match f.run r.record with
  | .ok _ record => set { r with record }
  | .error e record => do
    set { r with record }
    throw e

/-- What a step of a session comes to; the run goes on whatever it is. -/
def attempt (f : SessionStep Unit) : RunStep (Except Failure Unit) := do
  let r ← get
  match f.run ⟨r.context, r.world.journal⟩ with
  | .ok _ s =>
    set { r with context := s.context, world := { r.world with journal := s.journal } }
    return .ok ()
  | .error e s => do
    set { r with context := s.context, world := { r.world with journal := s.journal } }
    return .error e

end Run

namespace Executor

/-- Reads the clock. -/
def tick (x : Executor) : RunStep Moment := do
  let n := (← get).world.ticks
  modify fun r => { r with world := { r.world with ticks := n + 1 } }
  liftExcept (x.clock n)

/-- A failed node is the end of the run. -/
def failNode (x : Executor) (n : Node) (e : Failure) : RunStep Unit := do
  let payload ← liftExcept ((e.payload n.id).mapError Failure.shape)
  let time ← x.tick
  Run.onRecord (Record.nodeFailed n.id (.dict payload.document) time)
  modify (·.log n.id "error" payload.message [("error_type", .str payload.type)])
  let time ← x.tick
  Run.onRecord (Record.runFinished .failed time)
  modify Run.persist
  throw e

def visit (x : Executor) (n : Node) : RunStep Unit := do
  let time ← x.tick
  Run.onRecord (Record.nodeStarted n.id time)
  modify Run.persist
  match ← Run.attempt (x.services.dispatch n) with
  | .error e => x.failNode n e
  | .ok _ => do
    let outputs := (← get).context.snapshot
    let time ← x.tick
    Run.onRecord (Record.nodeFinished n.id (.dict outputs) time)
    modify Run.persist

/-- The nodes of a plan, from the first event of a run to the last. -/
def visitAll (x : Executor) (order : List Node) : RunStep Unit := do
  let time ← x.tick
  Run.onRecord (Record.runStarted time)
  modify Run.persist
  order.forM x.visit
  let time ← x.tick
  Run.onRecord (Record.runFinished .success time)
  modify Run.persist

/-- A graph stands under `data` or is the document itself. -/
def graphOf (document : Value) : Except ShapeError Graph := do
  match ← document.get "data" with
  | some (.dict d) =>
    if (Dict.field d "nodes").isSome then Graph.read (.dict d) else Graph.read document
  | _ => Graph.read document

def loadGraph (store : Store) (pipelineId : String) : Except Failure Graph := do
  match ← (store.get pipelinesCollection pipelineId).mapError Failure.store with
  | none => throw (.report (.pipelineNotFound pipelineId))
  | some document => (graphOf document).mapError Failure.shape

/-- A graph that is ready to run. -/
structure Plan where
  graph : Graph
  issues : List Issue
  order : List Node

/-- A strict engine wants no issues; any other drops what cannot be planned. -/
def plan (s : Settings) (g : Graph) : Except Failure Plan := do
  if s.strictValidation then
    g.ensureValid.mapError Failure.report
    return ⟨g, [], ← (g.plan s.ordering).mapError Failure.plan⟩
  else
    return ⟨g.prune, g.issues, ← (g.prune.plan s.ordering).mapError Failure.plan⟩

/-- The issues and the nodes that are not going to run, each as a warning at its node. -/
def Plan.warnings (p : Plan) : List (String × String) :=
  p.issues.map (fun i => ((i.node?.filter (· != "")).getD engineName, i.message))
    ++ (p.graph.nodes.filter fun n => !p.order.any (·.id == n.id)).map fun n =>
      (n.id, s!"Node {n.id} is not reachable from any entry node and will not run")

/-- A context with the warnings of a plan in it. -/
def openContext (x : Executor) (run : RunIdentity) (p : Plan) : Except ShapeError Context :=
  p.warnings.foldlM (fun c w => c.addWarning (.str w.1) (.str w.2)) (.start run x.logTime)

/-- Runs a plan in a world that has no record of it yet. -/
def execute (x : Executor) (run : RunIdentity) (id : String) (p : Plan) (w : World) :
    Except Failure FinishedRun × World :=
  match (x.openContext run p).mapError Failure.shape with
  | .error e => (.error e, w)
  | .ok context =>
    let w' := { w with ticks := w.ticks + 1 }
    match x.clock w.ticks with
    | .error e => (.error e, w')
    | .ok time =>
      match Record.create run (p.order.map fun n => (n.id, n.type)) time x.configHash with
      | .error e => (.error e, w')
      | .ok record =>
        match (x.visitAll p.order).run ⟨id, w', context, record⟩ with
        | .ok _ r => (.ok ⟨.ok (), r.id, r.context, r.record⟩, r.world)
        | .error e r => (.ok ⟨.error e, r.id, r.context, r.record⟩, r.world)

/-- Runs a pipeline. An error comes from before there was a record. -/
def run (x : Executor) (pipelineId userId projectId : String) (w : World) :
    Except Failure FinishedRun × World :=
  match loadGraph w.store pipelineId >>= plan x.services.settings with
  | .error e => (.error e, w)
  | .ok p =>
    let id := x.executionId w.issued
    x.execute ⟨.str id, .str pipelineId, .str userId, .str projectId⟩ id p
      { w with issued := w.issued + 1 }

end Executor

end BuildPipeline
