import BuildPipeline.Failure.Basic
import BuildPipeline.Time.Span
import BuildPipeline.Time.Iso

/-!
Execution records: the state of a run, the state of each of its nodes, and the log of events that
led there. Moments are recorded in UTC. A step that fails keeps what it did before.
-/
namespace BuildPipeline
open BuildPipeline.Time

inductive RunStatus
  | running
  | success
  | failed
  deriving DecidableEq

def RunStatus.all : List RunStatus := [.running, .success, .failed]

def RunStatus.name : RunStatus → String
  | .running => "running"
  | .success => "success"
  | .failed => "failed"

def RunStatus.read (v : Value) : Except Failure RunStatus :=
  match RunStatus.all.find? (Value.str ·.name = v) with
  | some s => .ok s
  | none => .error (.unknownStatus v)

inductive NodeStatus
  | pending
  | running
  | success
  | failed
  deriving DecidableEq

def NodeStatus.name : NodeStatus → String
  | .pending => "pending"
  | .running => "running"
  | .success => "success"
  | .failed => "failed"

/-- Whose run it is. -/
structure RunIdentity where
  executionId : Value
  pipelineId : Value
  userId : Value
  projectId : Value
  deriving DecidableEq

structure Record where
  execution : Dict
  nodes : Table String Dict
  events : List Dict
  deriving DecidableEq

/-- A step on a record. -/
abbrev RecordStep := EStateM Failure Record

namespace Record

/-- A moment as it is recorded. -/
def stamp (t : Moment) : Except Failure String := do
  return (← t.utc.mapError .time).iso

/-- A running record in which every node is pending. -/
def create (run : RunIdentity) (nodes : List (String × String)) (startedAt : Moment)
    (configHash : Value) : Except Failure Record := do
  let started ← stamp startedAt
  return {
    execution := Dict.of [
      ("execution_id", run.executionId),
      ("pipeline_id", run.pipelineId),
      ("user_id", run.userId),
      ("project_id", run.projectId),
      ("status", .str RunStatus.running.name),
      ("started_at", .str started),
      ("finished_at", .null),
      ("config_hash", configHash)]
    nodes := Table.ofList (nodes.map fun n =>
      (n.1, Dict.of [("node_id", .str n.1), ("type", .str n.2),
        ("status", .str NodeStatus.pending.name)]))
    events := [] }

def executionId (r : Record) : Except ShapeError Value :=
  (Value.dict r.execution).item "execution_id"

def status (r : Record) : Except ShapeError Value := (Value.dict r.execution).item "status"

def nodeStatus (r : Record) (id : String) : Except ShapeError Value :=
  match Table.get? r.nodes id with
  | some n => (Value.dict n).item "status"
  | none => .error (.missingKey id)

/-- The status of every node, in the order in which the nodes came. -/
def statuses (r : Record) : Except ShapeError (List Value) :=
  r.nodes.mapM fun n => (Value.dict n.2).item "status"

def document (r : Record) : Dict :=
  Dict.of [
    ("execution", .dict r.execution),
    ("nodes", .ofTable (r.nodes.mapValues .dict)),
    ("events", .list (r.events.map .dict))]

def read (v : Value) : Except ShapeError Record := do
  let execution ← ((← v.get "execution").getD (.dict [])).toDict
  let nodes ← (((← v.get "nodes").getD .null).orElse (.dict [])).items
  let nodes ← nodes.mapM fun e => return (e.1.text, ← e.2.toDict)
  let events ← (((← v.get "events").getD .null).orElse (.list [])).elements
  return ⟨execution, Table.ofList nodes, ← events.mapM Value.toDict⟩

/-- A field that is left out when there is nothing in it. -/
def present (name : String) (v : Value) : Table String Value :=
  if v = .null then [] else [(name, v)]

def addEvent (type node payload : Value) (t : Moment) : RecordStep Unit := do
  let time ← liftExcept (stamp t)
  let event := Dict.of ([("event_type", type), ("timestamp", .str time)]
    ++ present "node_id" node ++ present "payload" payload)
  modify fun r => { r with events := r.events ++ [event] }

/-- A node that has not been heard of comes last. -/
def register (r : Record) (id : String) : Record :=
  { r with nodes := Table.insertNew r.nodes id (Dict.of [("node_id", .str id)]) }

def node (r : Record) (id : String) : Dict := Table.getD r.nodes id []

def update (r : Record) (id : String) (fields : Table String Value) : Record :=
  { r with nodes := Table.insert r.nodes id (Table.union (r.node id) (Dict.of fields)) }

/-- Milliseconds since a node was started; none if it was not. -/
def duration (n : Dict) (t : Moment) : Except TimeError Nat := do
  let started := Dict.fieldD n "started_at"
  if started.truthy then
    match started with
    | .scalar (.str s) => do
      let s ← Moment.read s
      let t ← t.utc
      return wholeMillis (← s.utc) t
    | _ => throw .notText
  else return 0

def runStarted (t : Moment) : RecordStep Unit := do
  let r ← get
  addEvent (.str "run_started") .null (.ofTable [("nodes", .ofStrings r.nodes.keys)]) t

def nodeStarted (id : String) (t : Moment) : RecordStep Unit := do
  modify (register · id)
  let time ← liftExcept (stamp t)
  modify (update · id [("status", .str NodeStatus.running.name), ("started_at", .str time)])
  let n := (← get).node id
  addEvent (.str "node_started") (.str id) (.ofTable [("type", Dict.fieldD n "type")]) t

/-- A node ends with a status and what belongs to it. Answers how long the node took. -/
def endNode (id : String) (status : NodeStatus) (t : Moment)
    (more : Except Failure (Table String Value)) : RecordStep Nat := do
  modify (register · id)
  let time ← liftExcept (stamp t)
  let ms ← liftExcept ((duration ((← get).node id) t).mapError Failure.time)
  let more ← liftExcept more
  modify (update · id
    ([("status", .str status.name), ("finished_at", .str time), ("duration_ms", .int ms)] ++ more))
  return ms

def nodeFinished (id : String) (outputs : Value) (t : Moment) : RecordStep Unit := do
  let ms ← endNode id .success t <|
    ((outputs.orElse (.dict [])).toDict.mapError .shape).map fun d => [("outputs", .dict d)]
  addEvent (.str "node_finished") (.str id)
    (.ofTable [("status", .str NodeStatus.success.name), ("duration_ms", .int ms)]) t

def nodeFailed (id : String) (error : Value) (t : Moment) : RecordStep Unit := do
  let _ ← endNode id .failed t <|
    (error.toDict.mapError .shape).map fun d => [("error", .dict d)]
  let type ← liftExcept ((error.get "type").mapError Failure.shape)
  let message ← liftExcept ((error.get "message").mapError Failure.shape)
  addEvent (.str "node_failed") (.str id)
    (.ofTable [("error_type", type.getD .null), ("message", message.getD .null)]) t

def runFinished (status : RunStatus) (t : Moment) : RecordStep Unit := do
  modify fun r => { r with execution := Dict.set r.execution "status" (.str status.name) }
  let time ← liftExcept (stamp t)
  modify fun r => { r with execution := Dict.set r.execution "finished_at" (.str time) }
  addEvent (.str "run_finished") .null (.ofTable [("status", .str status.name)]) t

end Record

end BuildPipeline
