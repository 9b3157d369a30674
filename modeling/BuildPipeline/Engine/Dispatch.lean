import BuildPipeline.Build.Start
import BuildPipeline.BuildNode
import BuildPipeline.Engine.Context
import BuildPipeline.Engine.Journal

/-!
What the engine does at a node, by its type. Build nodes start a build and hand on its identifier,
deploy nodes deploy that build, and no other node changes what is handed on: the ends of a graph do
nothing, and test nodes and nodes of unknown types leave a warning.
-/
namespace BuildPipeline

/-- What all runs of an engine share. The numbers drawn between attempts are `random 0`, `random 1`
and so on. -/
structure Services where
  buildTrigger : BuildTrigger
  deployTrigger : DeployTrigger
  settings : Settings
  retry : Option RetryPolicy
  random : Nat → Float

/-- What a node may change. -/
structure Session where
  context : Context
  journal : Journal

/-- A step keeps what it did before it failed. -/
abbrev SessionStep := EStateM Failure Session

namespace Session

def log (node level message : String) (more : Table String Value) : SessionStep Unit :=
  modify fun s =>
    { s with context := s.context.log (.str node) (.str level) (.str message) (Dict.of more) }

def warn (node message : String) : SessionStep Unit := do
  let context ← liftExcept (((← get).context.addWarning (.str node) (.str message)).mapError
    Failure.shape)
  modify ({ · with context })

/-- Logs what happened between attempts. -/
def logEvents (c : Context) (node : String) (events : List RetryEvent) : Context :=
  events.foldl (fun c e => c.log (.str node) (.str e.level) (.str e.message) (Dict.of e.fields)) c

/-- Enters a trial of a trigger at a node, and goes on with its result. -/
def settle {α : Type} (node : String) (t : Trial α) (call : Except Failure α → Call) :
    SessionStep α := do
  modify fun s => ⟨logEvents s.context node t.events, s.journal.enter t call⟩
  liftExcept t.result

end Session

namespace Services

def startBuild (x : Services) (node : String) (call : BuildCall) :
    SessionStep (Option BuildStart) := do
  let j := (← get).journal
  Session.settle node (x.buildTrigger.ask x.retry x.random j.draws j.buildCalls call)
    (.build call)

def deploy (x : Services) (node : String) (call : DeployCall) :
    SessionStep (Option Deployment) := do
  let j := (← get).journal
  Session.settle node (x.deployTrigger.ask x.retry x.random j.draws j.deployCalls call)
    (.deploy call)

/-- A build node under the project of the run. -/
def runBuild (x : Services) (n : Node) : SessionStep Unit := do
  let c := (← get).context
  let spec ← liftExcept ((n.buildSpec x.settings.build).mapError Failure.shape)
  let project ← liftExcept
    ((projectName x.settings.build.projectPrefix c.run.projectId c.run.userId).mapError
      Failure.shape)
  let env ← liftExcept ((n.field "environment_variables").textEntries.mapError Failure.shape)
  Session.log n.id "info" "Executing build node" [("node_type", .str n.type)]
  let started ← x.startBuild n.id ⟨project, spec.render, .ofTexts env⟩
  let (id, _) ← liftExcept ((requireBuildId started project).mapError Failure.report)
  modify fun s => { s with context := { s.context with
    buildId := .str id, artifactLocation := .str (artifactLocation project id) } }
  Session.log n.id "info" "Build started" [("build_id", .str id), ("project_name", .str project)]

/-- The identifier of a deployment, which the trigger owes. -/
def requireDeploymentId (created : Option Deployment) (build : Value) : Except Report String :=
  match (created.bind (·.deploymentId)).filter (· != "") with
  | some id => .ok id
  | none => .error (.noIdentifier "deploy" "no deployment id returned" [("build_id", build)])

/-- A deploy node, which needs a build. -/
def runDeploy (x : Services) (n : Node) : SessionStep Unit := do
  let build := (← get).context.buildId
  if !build.truthy then throw (.report (.missingBuildId (.str n.id)))
  Session.log n.id "info" "Executing deploy node" [("build_id", build)]
  let created ← x.deploy n.id ⟨build, .ofFields n.data⟩
  let id ← liftExcept ((requireDeploymentId created build).mapError Failure.report)
  modify fun s => { s with context := { s.context with deploymentId := .str id } }
  Session.log n.id "info" "Deployment created" [("deployment_id", .str id)]

def dispatch (x : Services) (n : Node) : SessionStep Unit :=
  match n.type? with
  | some .start | some .pipelineStart | some .finish =>
    Session.log n.id "debug" s!"{n.type} node: nothing to execute" []
  | some .buildWebpack | some .buildVite | some .buildCustom => x.runBuild n
  | some .deploy => x.runDeploy n
  | some .testJest | some .testMocha | some .testVitest =>
    Session.warn n.id s!"Test node not yet implemented: {n.type}"
  | none => Session.warn n.id s!"Unknown node type: {n.type}"

end Services

end BuildPipeline
