import BuildPipeline.Digest.Sha256
import BuildPipeline.Json.Writer
import BuildPipeline.Text.Utf8

/-!
Fingerprints of documents: the SHA-256 digest of the canonical JSON text.
-/
namespace BuildPipeline

inductive FingerprintError
  | notMapping (kind : Kind)
  | write (e : Json.WriteError)
  deriving DecidableEq

def FingerprintError.kind : FingerprintError → String
  | .notMapping _ => "TypeError"
  | .write e => e.kind

def FingerprintError.message : FingerprintError → String
  | .notMapping k => "Documento para hashing deve ser dict, recebido: " ++ k.name
  | .write e => e.message

def fingerprint : Value → Except FingerprintError String
  | .dict d => do
    let text ← (Json.canonical d).mapError .write
    return Digest.sha256 (Text.encodeUtf8 text.toList)
  | v => .error (.notMapping v.kind)

end BuildPipeline
