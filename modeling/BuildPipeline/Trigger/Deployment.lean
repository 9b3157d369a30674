import BuildPipeline.Document.Shape

/-!
Deployments: what a deploy node asks for. Every part that is missing or malformed has a default, so
that any mapping describes a deployment; one without tags is tagged with its environment.
-/
namespace BuildPipeline

inductive Strategy
  | allAtOnce
  | halfAtATime
  | oneAtATime
  | blueGreen
  deriving DecidableEq

def Strategy.all : List Strategy := [.allAtOnce, .halfAtATime, .oneAtATime, .blueGreen]

def Strategy.name : Strategy → String
  | .allAtOnce => "all-at-once"
  | .halfAtATime => "half-at-a-time"
  | .oneAtATime => "one-at-a-time"
  | .blueGreen => "blue-green"

/-- The name of the service's own configuration for a strategy. -/
def Strategy.configName : Strategy → String
  | .allAtOnce => "CodeDeployDefault.AllAtOnce"
  | .halfAtATime => "CodeDeployDefault.HalfAtATime"
  | .oneAtATime => "CodeDeployDefault.OneAtATime"
  | .blueGreen => "CodeDeployDefault.AllAtOnceBlueGreen"

/-- A strategy that is not known goes all at once. -/
def Strategy.ofName (s : String) : Strategy := (all.find? (·.name == s)).getD .allAtOnce

/-- The configuration for a strategy that may be any value that identifies one. -/
def strategyConfigName (v : Value) : Except ShapeError String :=
  match v with
  | .scalar (.str s) => .ok (Strategy.ofName s).configName
  | v =>
    if v.truthy then do
      let _ ← v.asKey
      return Strategy.allAtOnce.configName
    else .ok Strategy.allAtOnce.configName

structure Tag where
  key : String
  value : String
  deriving DecidableEq

structure DeploymentConfig where
  name : String
  environment : String
  targetType : String
  tags : List Tag
  strategy : String
  healthCheckUrl : Value
  waitTimeMinutes : Value
  rollbackEnabled : Bool
  rollbackOnFailure : Bool
  rollbackOnAlarm : Bool
  deriving DecidableEq

/-- A field under either of two spellings; the first one wins whenever it is there. -/
def Dict.fieldEither (d : Dict) (name other : String) : Value :=
  (Dict.field d name).getD (Dict.fieldD d other)

/-- A tag has a key that counts as true; a value that is missing is empty. -/
def Tag.read? : Value → Option Tag
  | .dict d =>
    let key := Dict.fieldEither d "key" "Key"
    let value := Dict.fieldEither d "value" "Value"
    if key.truthy then some ⟨key.text, if value = .null then "" else value.text⟩ else none
  | _ => none

/-- The tags of a list, without the entries that are none. -/
def Tag.readAll : Value → List Tag
  | .list vs => vs.filterMap Tag.read?
  | .pair v w => [v, w].filterMap Tag.read?
  | _ => []

namespace DeploymentConfig

def mapping : Value → Dict
  | .dict d => d
  | _ => []

/-- A strategy may be given by its type alone. -/
def strategyFields : Value → Dict
  | .scalar (.str s) => Dict.of [("type", .str s)]
  | v => mapping v

def flag (d : Dict) (name : String) (fallback : Bool) : Bool :=
  ((Dict.field d name).map Value.truthy).getD fallback

def textOr (v : Value) (fallback : String) : String := (v.orElse (.str fallback)).text

def ofFields (data : Dict) : DeploymentConfig :=
  let environment := textOr (Dict.fieldD data "environment") "development"
  let tags := Tag.readAll (Dict.fieldD data "instance_tags")
  let strategy := strategyFields ((Dict.fieldD data "deployment_strategy").orElse (.dict []))
  let rollback := mapping (Dict.fieldD data "rollback_config")
  { name := textOr (Dict.fieldD data "deployment_name") "Pipeline Deployment"
    environment
    targetType := textOr (Dict.fieldD data "target_type") "ec2"
    tags := if tags.isEmpty then [⟨"Environment", environment⟩] else tags
    strategy := textOr (Dict.fieldD strategy "type") Strategy.allAtOnce.name
    healthCheckUrl := Dict.fieldD strategy "health_check_url"
    waitTimeMinutes := Dict.fieldD strategy "wait_time_minutes"
    rollbackEnabled := flag rollback "enabled" true
    rollbackOnFailure := flag rollback "on_deployment_failure" true
    rollbackOnAlarm := flag rollback "on_alarm_threshold" false }

def read : Value → Except ShapeError DeploymentConfig
  | .dict d => .ok (ofFields d)
  | v => .error (.noAttribute v.kind "get")

def groupName (c : DeploymentConfig) : String := c.environment ++ "-group"

def configName (c : DeploymentConfig) : String := (Strategy.ofName c.strategy).configName

def rollbackEvents (c : DeploymentConfig) : List String :=
  if c.rollbackEnabled then
    (if c.rollbackOnFailure then ["DEPLOYMENT_FAILURE"] else [])
      ++ (if c.rollbackOnAlarm then ["DEPLOYMENT_STOP_ON_ALARM"] else [])
  else []

def tagFilters (c : DeploymentConfig) : List Value :=
  c.tags.map fun t =>
    .ofTable [("Type", .str "KEY_AND_VALUE"), ("Key", .str t.key), ("Value", .str t.value)]

def document (c : DeploymentConfig) : Value :=
  .ofTable [
    ("deployment_name", .str c.name),
    ("environment", .str c.environment),
    ("target_type", .str c.targetType),
    ("instance_tags",
      .list (c.tags.map fun t => .ofTable [("key", .str t.key), ("value", .str t.value)])),
    ("deployment_strategy", .ofTable [
      ("type", .str c.strategy),
      ("config_name", .str c.configName),
      ("health_check_url", c.healthCheckUrl),
      ("wait_time_minutes", c.waitTimeMinutes)]),
    ("rollback_config", .ofTable [
      ("enabled", .bool c.rollbackEnabled),
      ("events", .ofStrings c.rollbackEvents)])]

end DeploymentConfig

end BuildPipeline
