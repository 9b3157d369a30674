import BuildPipeline.Retry.Trial
import BuildPipeline.Trigger.Deployment

/-!
Triggers: the collaborators that start builds and deployments. A trigger answers a call in view of
the calls that it has had before, so that asking it twice may bring two answers.
-/
namespace BuildPipeline
open BuildPipeline.Time

structure BuildCall where
  projectName : String
  buildspec : String
  env : Value
  deriving DecidableEq

/-- A build that was started. A trigger may fail to name it. -/
structure BuildStart where
  buildId : Option String
  status : Option String
  startTime : Option Moment
  deriving DecidableEq

def BuildStart.inProgress : String := "IN_PROGRESS"

structure DeployCall where
  buildId : Value
  config : DeploymentConfig
  deriving DecidableEq

/-- A deployment that was created. A trigger may fail to name it. -/
structure Deployment where
  deploymentId : Option String
  status : Option String
  deriving DecidableEq

def Deployment.created : String := "Created"

/-- A trigger answers a call by `answer earlier call` after the calls `earlier`. It may try again by
itself; the first of its `policies` is the innermost one. -/
structure Trigger (κ α : Type) where
  answer : List κ → κ → Except Failure α
  policies : List RetryPolicy

abbrev BuildTrigger := Trigger BuildCall (Option BuildStart)

abbrev DeployTrigger := Trigger DeployCall (Option Deployment)

namespace Trigger
variable {κ α : Type}

def ofAnswer (answer : List κ → κ → Except Failure α) : Trigger κ α := ⟨answer, []⟩

/-- The trigger that tries again by itself under a policy, and says nothing about it. -/
def retrying (t : Trigger κ α) (p : RetryPolicy) : Trigger κ α :=
  { t with policies := t.policies ++ [p] }

/-- One call after the calls `earlier`, which may be repeated. -/
def operation (t : Trigger κ α) (random : Nat → Float) (earlier : List κ) (call : κ) :
    Operation α :=
  t.policies.foldl (fun op p calls draws => (p.around random op calls draws).silent)
    (.ofOutcomes fun k => t.answer (earlier ++ List.replicate k call) call)

/-- Asks a trigger after `draws` numbers have been drawn, once or under a policy. -/
def ask (t : Trigger κ α) (policy : Option RetryPolicy) (random : Nat → Float) (draws : Nat)
    (earlier : List κ) (call : κ) : Trial α :=
  let op := t.operation random earlier call
  match policy with
  | none => op 0 draws
  | some p => p.around random op 0 draws

end Trigger

end BuildPipeline
