import BuildPipeline.Config.Fingerprint
import BuildPipeline.Config.Settings
import BuildPipeline.Failure.Fault
import BuildPipeline.Failure.Report
import BuildPipeline.Store.Error

/-!
Failures: everything that can end an operation, by cause.
-/
namespace BuildPipeline
open BuildPipeline.Time

inductive Failure
  | shape (e : ShapeError)
  | time (e : TimeError)
  | plan (e : PlanError)
  | setting (e : SettingError)
  | fingerprint (e : FingerprintError)
  | writing (e : Json.WriteError)
  | store (e : StoreError)
  | report (r : Report)
  | fault (f : Fault)
  | unknownStatus (v : Value)
  | tooLargeForFloat
  deriving DecidableEq

namespace Failure

def kind : Failure → String
  | .shape e => e.kind
  | .time e => e.kind
  | .plan e => e.kind
  | .setting e => e.kind
  | .fingerprint e => e.kind
  | .writing e => e.kind
  | .store e => e.kind
  | .report r => r.name
  | .fault f => f.name
  | .unknownStatus _ => "ValueError"
  | .tooLargeForFloat => "OverflowError"

def message : Failure → String
  | .shape e => e.message
  | .time e => e.message
  | .plan e => e.message
  | .setting e => e.message
  | .fingerprint e => e.message
  | .writing e => e.message
  | .store e => e.message
  | .report r => r.message
  | .fault f => f.text
  | .unknownStatus v => v.literal ++ " is not a valid RunStatus"
  | .tooLargeForFloat => "int too large to convert to float"

/-- Whether trying again may help. -/
def isTransient : Failure → Except ShapeError Bool
  | .fault f => f.isTransient
  | e => .ok (hasTransientCode e.kind || hasTransientMessage e.message)

end Failure

end BuildPipeline
