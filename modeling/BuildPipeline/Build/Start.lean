import BuildPipeline.Build.Naming
import BuildPipeline.Build.Status
import BuildPipeline.BuildSpec.Render
import BuildPipeline.Store.Basic
import BuildPipeline.Trigger.Basic

/-!
Starting a build of a definition. All that can be wrong with a request is found before the trigger
is called, which happens once; the record of a build that was started is then put into the store,
and a store that fails leaves nothing but a warning.
-/
namespace BuildPipeline
open BuildPipeline.Time

def buildsCollection : String := "builds"

/-- A strict request wants no issues; any other takes them as warnings. -/
structure BuildRequest where
  userId : Value
  projectId : Value
  definition : Value
  env : Value
  strict : Bool
  pipelineId : Value
  projectPrefix : String

/-- What a trigger is going to be called with, and what is known about it. -/
structure PreparedBuild where
  spec : BuildSpec
  call : BuildCall
  env : Dict
  warnings : List String

structure BuildOutcome where
  buildId : String
  status : String
  projectName : String
  buildspec : String
  record : Option Dict
  warnings : List String

/-- What became of a request: the call of the trigger, if there was one, the outcome, and the store
afterwards. -/
structure BuildRun where
  call : Option BuildCall
  result : Except Failure BuildOutcome
  store : Option Store

/-- The definition that a value holds. -/
def Definition.ofValue (v : Value) : Except ShapeError Definition :=
  match v with
  | .dict _ => read v
  | v => .error (.noAttribute v.kind "blocks")

/-- The identifier of a build, which the trigger owes. -/
def requireBuildId (started : Option BuildStart) (project : String) :
    Except Report (String × BuildStart) :=
  match started with
  | some s => match s.buildId.filter (· != "") with
    | some id => .ok (id, s)
    | none => .error (noIdentifier project)
  | none => .error (noIdentifier project)
where
  noIdentifier (project : String) : Report :=
    .noIdentifier "build" "no build id returned" [("project_name", .str project)]

namespace BuildRequest

def prepare (r : BuildRequest) : Except Failure PreparedBuild := do
  let definition ← (Definition.ofValue r.definition).mapError Failure.shape
  if r.strict then definition.ensureValid.mapError Failure.report
  let spec := definition.compile
  let text ← spec.text.mapError Failure.writing
  let project ← (projectName r.projectPrefix r.projectId r.userId).mapError Failure.shape
  let env ← (r.env.orElse (.dict [])).toDict.mapError Failure.shape
  return {
    spec
    call := ⟨project, text, .dict env⟩
    env
    warnings := if r.strict then [] else definition.issues.map Issue.message }

/-- The status of a build that was just started. -/
def startStatus (s : BuildStart) : BuildStatus :=
  match s.status.filter (· != "") with
  | some word => .ofService word
  | none => .inProgress

/-- The record of a build that was started, with the fingerprint of what is built. -/
def recordWith (r : BuildRequest) (p : PreparedBuild) (id : String) (s : BuildStart) (now : Moment)
    (hash : String) : Dict :=
  Dict.of [
    ("build_id", .str id),
    ("user_id", r.userId),
    ("project_id", r.projectId),
    ("pipeline_id", r.pipelineId),
    ("project_name", .str p.call.projectName),
    ("status", .str (startStatus s).name),
    ("buildspec", .dict p.spec.document),
    ("buildspec_hash", .str hash),
    ("environment_variables", if p.env.isEmpty then .null else .dict p.env),
    ("start_time", .str (s.startTime.getD now).iso),
    ("end_time", .null),
    ("duration_seconds", .null),
    ("logs_url", .null),
    ("error_message", .null)]

def record (r : BuildRequest) (p : PreparedBuild) (id : String) (s : BuildStart) (now : Moment) :
    Except Failure Dict := do
  let hash ← (fingerprint (.dict p.spec.document)).mapError Failure.fingerprint
  return r.recordWith p id s now hash

/-- What the trigger's answer makes of a prepared build. -/
def settle (r : BuildRequest) (p : PreparedBuild) (answer : Except Failure (Option BuildStart))
    (now : Moment) : Except Failure (String × BuildStart × Dict) := do
  let (id, s) ← (requireBuildId (← answer) p.call.projectName).mapError Failure.report
  return (id, s, ← r.record p id s now)

/-- Puts a record into a store, if there is one. Answers the record if it was put, a warning if it
was refused, and the store. -/
def file (id : String) (record : Dict) :
    Option Store → Option Dict × List String × Option Store
  | none => (none, [], none)
  | some store => match (Store.put buildsCollection id (.dict record)).run store with
    | .ok _ store => (some record, [], some store)
    | .error e store =>
      (none, [s!"Failed to store build record for {id}: {e.message}"], some store)

/-- Starts a build. `answer` is the trigger, and `now` the time if the trigger tells none. -/
def start (r : BuildRequest) (answer : BuildCall → Except Failure (Option BuildStart))
    (now : Moment) (store : Option Store) : BuildRun :=
  match r.prepare with
  | .error e => ⟨none, .error e, store⟩
  | .ok p => match r.settle p (answer p.call) now with
    | .error e => ⟨some p.call, .error e, store⟩
    | .ok (id, s, record) =>
      let (stored, failed, store) := file id record store
      ⟨some p.call, .ok {
        buildId := id
        status := (startStatus s).name
        projectName := p.call.projectName
        buildspec := p.call.buildspec
        record := stored
        warnings := p.warnings ++ failed }, store⟩

end BuildRequest

end BuildPipeline
