import BuildPipeline.Document.Shape
import BuildPipeline.Text.Search

/-!
Faults: errors that collaborators raise, with what a service says about them. A fault may pass when
it is an interruption, when its code or its message says so, or when its status is that of a
server.
-/
namespace BuildPipeline
open BuildPipeline.Text

/-- The `statuses` are tried in order. An `interruption` is a time-out or a lost connection. -/
structure Fault where
  name : String
  text : String
  interruption : Bool
  code : Value
  statuses : List Value
  response : Value
  deriving DecidableEq

def transientCodes : List String :=
  ["ThrottlingException", "TooManyRequestsException", "ServiceUnavailableException",
    "InternalServerError", "RequestTimeout"]

def transientMessages : List String :=
  ["Rate exceeded", "Too Many Requests", "Service Unavailable", "Internal Server Error", "Timeout",
    "Connection"]

def hasTransientCode (code : String) : Bool := transientCodes.any (occurs · code)

def hasTransientMessage (text : String) : Bool := transientMessages.any (occurs · text)

/-- A field of a part of a response. A response that is no mapping has no parts. -/
def responseField (response : Value) (part name : String) : Except ShapeError (Option Value) :=
  match response with
  | .dict es => ((Dict.fieldD es part).orElse (.dict [])).get name
  | _ => .ok none

/-- A status that is a whole number; truth values are none. -/
def Value.status? : Value → Option Int
  | .scalar (.int n) => some n
  | _ => none

namespace Fault

/-- The code of the response, else the fault's own code, else its name. -/
def effectiveCode (f : Fault) : Except ShapeError String := do
  match ← responseField f.response "Error" "Code" with
  | some code => if code.truthy then return code.text else return ownCode f
  | none => return ownCode f
where
  ownCode (f : Fault) : String :=
    match f.code with
    | .scalar (.str s) => if s = "" then f.name else s
    | _ => f.name

/-- The first status of the fault itself, else that of the response. -/
def effectiveStatus (f : Fault) : Except ShapeError (Option Int) := do
  match f.statuses.findSome? Value.status? with
  | some n => return some n
  | none =>
    match ← responseField f.response "ResponseMetadata" "HTTPStatusCode" with
    | some (.scalar (.bool b)) => return some (if b then 1 else 0)
    | some v => return v.status?
    | none => return none

def isTransient (f : Fault) : Except ShapeError Bool := do
  if f.interruption then return true
  if hasTransientCode (← f.effectiveCode) then return true
  if hasTransientMessage f.text then return true
  return ((← f.effectiveStatus).map fun n => decide (500 ≤ n)).getD false

end Fault

end BuildPipeline
