import BuildPipeline.Document.Shape

/-!
Error payloads: what is written down about a failure, with a stable code, a short message, details
for whoever looks for the cause and a hint for whoever has to mend it.
-/
namespace BuildPipeline

inductive ErrorCode
  | validation
  | missingBuildId
  | pipelineNotFound
  | buildNotFound
  | triggerFailed
  | execution
  deriving DecidableEq

def ErrorCode.name : ErrorCode → String
  | .validation => "VALIDATION_ERROR"
  | .missingBuildId => "MISSING_BUILD_ID"
  | .pipelineNotFound => "PIPELINE_NOT_FOUND"
  | .buildNotFound => "BUILD_NOT_FOUND"
  | .triggerFailed => "TRIGGER_FAILED"
  | .execution => "ENGINE_EXECUTION_ERROR"

/-- The hint that a payload has unless another one is given. -/
def ErrorCode.hint : ErrorCode → String
  | .validation =>
    "Corrija as referências e tipos apontados antes de compilar ou executar o pipeline."
  | .missingBuildId => "Conecte um nó de build antes do nó de deploy no grafo do pipeline."
  | .pipelineNotFound => "Verifique se o pipeline foi salvo antes de solicitar a execução."
  | .buildNotFound => "O registro de build é criado no disparo; confira o build_id informado."
  | .triggerFailed =>
    "Consulte o estado do serviço externo; o Engine não aplica fallback automático."
  | .execution =>
    "Verifique o Event Log da execução para diagnosticar a falha. "
      ++ "Nenhum fallback é aplicado automaticamente."

structure ErrorPayload where
  type : String
  message : Value
  details : Dict
  hint : Value
  deriving DecidableEq

namespace ErrorPayload

def make (code : ErrorCode) (message : String) (details : Table String Value) (hint : Value) :
    ErrorPayload :=
  ⟨code.name, .str message, Dict.of details, hint⟩

def validation (issues subject hint : Value) : Except ShapeError ErrorPayload := do
  let n ← issues.length
  return make .validation s!"{subject.text} inválido: {n} problema(s) encontrado(s)"
    [("subject", subject), ("issues", issues)] hint

def missingBuildId (node hint : Value) : ErrorPayload :=
  make .missingBuildId "No build ID found in context for deployment" [("node_id", node)] hint

def pipelineNotFound (id hint : Value) : ErrorPayload :=
  make .pipelineNotFound ("Pipeline not found: " ++ id.text) [("pipeline_id", id)] hint

def buildNotFound (id hint : Value) : ErrorPayload :=
  make .buildNotFound ("Build not found: " ++ id.text) [("build_id", id)] hint

/-- Further details are added to those of the trigger and win over them. -/
def triggerFailed (capability reason details hint : Value) : Except ShapeError ErrorPayload := do
  let more ← (details.orElse (.dict [])).toDict
  let own := Dict.of [("capability", capability), ("reason", reason)]
  return ⟨ErrorCode.triggerFailed.name, .str s!"{capability.text} failed: {reason.text}",
    Table.union own more, hint⟩

def execution (node type message hint : Value) : ErrorPayload :=
  ⟨ErrorCode.execution.name,
    message.orElse (.str "Falha inesperada durante a execução do pipeline"),
    Dict.of [("node_id", node), ("exc_type", type)], hint⟩

def document (p : ErrorPayload) : Dict :=
  Dict.of [("type", .str p.type), ("message", p.message), ("details", .dict p.details),
    ("hint", p.hint)]

end ErrorPayload

end BuildPipeline
