import BuildPipeline.Record.Basic

/-!
The context of a run: what its nodes hand on to each other, the log and the warnings. Warnings are
kept by node, in the order of the first warning of each.
-/
namespace BuildPipeline
open BuildPipeline.Time

/-- Entries of the log bear the time `logTime`. -/
structure Context where
  run : RunIdentity
  logTime : Moment
  buildId : Value
  artifactLocation : Value
  deploymentId : Value
  extras : Dict
  events : List Dict
  warnings : Table Scalar (List Value)
  deriving DecidableEq

namespace Context

/-- A context in which nothing has happened. -/
def start (run : RunIdentity) (logTime : Moment) : Context :=
  ⟨run, logTime, .null, .null, .null, [], [], []⟩

/-- Adds an entry to the log. Further fields win over the common ones. -/
def log (c : Context) (node level message : Value) (more : Dict) : Context :=
  let entry := Dict.of [
    ("execution_id", c.run.executionId),
    ("node_id", node),
    ("level", level),
    ("message", message),
    ("timestamp", .str c.logTime.iso)]
  { c with events := c.events ++ [Table.union entry more] }

/-- A warning is logged as well. -/
def addWarning (c : Context) (node message : Value) : Except ShapeError Context := do
  let key ← node.asKey
  return { c with warnings := Table.modify c.warnings key [] (· ++ [message]) }.log
    node (.str "warning") message []

def snapshot (c : Context) : Dict :=
  Dict.of [
    ("build_id", c.buildId),
    ("artifact_location", c.artifactLocation),
    ("deployment_id", c.deploymentId),
    ("extras", .dict c.extras)]

end Context

end BuildPipeline
