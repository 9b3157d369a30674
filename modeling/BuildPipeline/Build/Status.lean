import BuildPipeline.Document.Shape
import BuildPipeline.Text.LowerCase
import BuildPipeline.Text.UpperCase

/-!
Statuses of builds. A build service has its own words for them, in any case; a word that is not
known leaves the build pending.
-/
namespace BuildPipeline
open BuildPipeline.Text

inductive BuildStatus
  | succeeded
  | failed
  | fault
  | timedOut
  | inProgress
  | stopped
  | pending
  deriving DecidableEq

namespace BuildStatus

def name : BuildStatus → String
  | .succeeded => "succeeded"
  | .failed => "failed"
  | .fault => "fault"
  | .timedOut => "timed_out"
  | .inProgress => "in_progress"
  | .stopped => "stopped"
  | .pending => "pending"

/-- The words of the service. -/
def serviceWords : List (String × BuildStatus) :=
  [("SUCCEEDED", .succeeded), ("FAILED", .failed), ("FAULT", .fault), ("TIMED_OUT", .timedOut),
    ("IN_PROGRESS", .inProgress), ("STOPPED", .stopped)]

def ofService (s : String) : BuildStatus :=
  ((serviceWords.find? (·.1 == upper s)).map (·.2)).getD .pending

/-- A status that is missing is not known. -/
def read (v : Value) : Except ShapeError BuildStatus :=
  match v.orElse (.str "") with
  | .scalar (.str s) => .ok (ofService s)
  | v => .error (.noAttribute v.kind "upper")

/-- Whether a build is over. -/
def isTerminal : BuildStatus → Bool
  | .succeeded | .failed | .fault | .stopped | .timedOut => true
  | _ => false

def terminal : List BuildStatus := [.succeeded, .failed, .fault, .stopped, .timedOut]

/-- Whether a text, in any case, names a status of a build that is over. -/
def isTerminalName (v : Value) : Except ShapeError Bool :=
  match v with
  | .scalar (.str s) => .ok (terminal.any (·.name == lower s))
  | v => .error (.noAttribute v.kind "lower")

end BuildStatus

end BuildPipeline
