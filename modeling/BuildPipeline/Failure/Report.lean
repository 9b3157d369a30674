import BuildPipeline.Failure.Payload
import BuildPipeline.Validation

/-!
Reports: errors of the domain, which carry details and a hint along with their message. A report
that a collaborator raises may bear a name of its own; its family says what it counts as.
-/
namespace BuildPipeline

inductive ReportFamily
  | general
  | missingBuildId
  | pipelineNotFound
  | buildNotFound
  | trigger
  | validation
  deriving DecidableEq

def ReportFamily.all : List ReportFamily :=
  [.general, .missingBuildId, .pipelineNotFound, .buildNotFound, .trigger, .validation]

def ReportFamily.name : ReportFamily → String
  | .general => "BlockCIException"
  | .missingBuildId => "MissingBuildIdError"
  | .pipelineNotFound => "PipelineNotFoundError"
  | .buildNotFound => "BuildNotFoundError"
  | .trigger => "TriggerError"
  | .validation => "ValidationError"

def ReportFamily.ofName? (s : String) : Option ReportFamily := all.find? (·.name == s)

/-- The code of a family; reports of no special family go by their own name. -/
def ReportFamily.code? : ReportFamily → Option ErrorCode
  | .general => none
  | .missingBuildId => some .missingBuildId
  | .pipelineNotFound => some .pipelineNotFound
  | .buildNotFound => some .buildNotFound
  | .trigger => some .triggerFailed
  | .validation => some .validation

structure Report where
  family : ReportFamily
  name : String
  message : String
  details : Value
  hint : Value
  issues : List Issue
  deriving DecidableEq

namespace Report

def ofPayload (family : ReportFamily) (p : ErrorPayload) : Report :=
  ⟨family, family.name, p.message.text, .dict p.details, p.hint, []⟩

def missingBuildId (node : Value) : Report :=
  ofPayload .missingBuildId (.missingBuildId node (.str ErrorCode.missingBuildId.hint))

def pipelineNotFound (id : String) : Report :=
  ofPayload .pipelineNotFound (.pipelineNotFound (.str id) (.str ErrorCode.pipelineNotFound.hint))

def buildNotFound (id : String) : Report :=
  ofPayload .buildNotFound (.buildNotFound (.str id) (.str ErrorCode.buildNotFound.hint))

/-- A trigger that answered without the identifier it owes. -/
def noIdentifier (capability reason : String) (details : Table String Value) : Report :=
  ofPayload .trigger
    (.make .triggerFailed s!"{capability} failed: {reason}"
      ([("capability", .str capability), ("reason", .str reason)] ++ details)
      (.str ErrorCode.triggerFailed.hint))

def invalid (subject : String) (issues : List Issue) : Report :=
  let found := Value.list (issues.map Issue.document)
  { ofPayload .validation
      (.make .validation s!"{subject} inválido: {issues.length} problema(s) encontrado(s)"
        [("subject", .str subject), ("issues", found)] (.str ErrorCode.validation.hint)) with
    issues := issues }

end Report

/-- Fails when there are issues, with all of them. -/
def ensureNone (subject : String) (issues : List Issue) : Except Report Unit :=
  if issues.isEmpty then .ok () else .error (.invalid subject issues)

def Definition.ensureValid (d : Definition) : Except Report Unit :=
  ensureNone "Pipeline definition" d.issues

def Graph.ensureValid (g : Graph) : Except Report Unit := ensureNone "Execution graph" g.issues

end BuildPipeline
