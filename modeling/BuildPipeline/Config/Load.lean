import BuildPipeline.Config.Fingerprint
import BuildPipeline.Config.Merge
import BuildPipeline.Files.Error
import BuildPipeline.Files.Tree
import BuildPipeline.Text.LowerCase
import BuildPipeline.Text.Newline
import BuildPipeline.Yaml.Reader

/-!
Configuration from files: a file of defaults, which must be there, and a local file that overrides
it, which may be missing. The suffix of a file says how it is read, an empty document is an empty
configuration, and the configuration comes with its fingerprint.
-/
namespace BuildPipeline.Config
open BuildPipeline.Files BuildPipeline.Text

/-- A configuration file is a list of octets. -/
abbrev Folder := Files.Tree (List Nat)

inductive Format
  | yaml
  | json
  deriving DecidableEq

def Format.ofSuffix? (suffix : String) : Option Format :=
  let s := lower suffix
  if s = ".yaml" ∨ s = ".yml" then some .yaml
  else if s = ".json" then some .json
  else none

inductive LoadError
  | noDefaults (path : String)
  | opening (e : OpenError)
  | unsupported (suffix : String)
  | encoding (e : Utf8Error)
  | yaml (e : Yaml.ReadError)
  | json (e : Json.ReadError)
  | root (kind : Kind) (path : String)
  | conflict (e : MergeConflict)
  | fingerprint (e : FingerprintError)
  deriving DecidableEq

def LoadError.kind : LoadError → String
  | .noDefaults _ => "DefaultsNotFoundError"
  | .opening e => e.kind
  | .unsupported _ => "UnsupportedConfigFormatError"
  | .encoding _ => "UnicodeDecodeError"
  | .yaml e => e.kind
  | .json e => e.kind
  | .root _ _ => "InvalidConfigRootTypeError"
  | .conflict _ => "ConfigTypeConflictError"
  | .fingerprint e => e.kind

def encodingMessage (e : Utf8Error) : String :=
  let octets := if e.stop = e.start + 1 then
      "byte 0x" ++ String.ofList (hex 2 e.octet) ++ s!" in position {e.start}"
    else s!"bytes in position {e.start}-{e.stop - 1}"
  s!"'utf-8' codec can't decode {octets}: {e.flaw.reason}"

def LoadError.message? : LoadError → Option String
  | .noDefaults path => some ("Arquivo de defaults não encontrado: " ++ path)
  | .opening e => some e.message
  | .unsupported suffix => some ("Formato não suportado: " ++ suffix)
  | .encoding e => some (encodingMessage e)
  | .yaml e => e.message?
  | .json e => some e.message
  | .root k path => some s!"Config root deve ser dict, recebido: {k.name} ({path})"
  | .conflict e => some e.message
  | .fingerprint e => some e.message

/-- YAML is decoded piece by piece, so that a character that the end of the file cuts short is
counted from its own first octet. -/
def Format.place (f : Format) (e : Utf8Error) : Utf8Error :=
  match f, e.flaw with
  | .yaml, .endOfData => { e with start := 0, stop := e.stop - e.start }
  | _, _ => e

def Format.read (f : Format) (octets : List Nat) : Except LoadError Value := do
  let cs ← (decodeUtf8 octets).mapError fun e => .encoding (f.place e)
  match f with
  | .yaml => (Yaml.readChars (lineFeeds cs)).mapError .yaml
  | .json => (Json.read (String.ofList (lineFeeds cs))).mapError .json

/-- The root of a document; one with nothing in it has no keys. -/
def rootOf (path : String) : Value → Except LoadError Dict
  | .scalar .null => .ok []
  | .dict d => .ok d
  | v => .error (.root v.kind path)

def readEntry (p : Path) : Entry (List Nat) → Except LoadError Dict
  | .folder _ => .error (.opening (.folder p.text))
  | .file octets => do
    match Format.ofSuffix? p.suffix with
    | none => throw (.unsupported p.suffix)
    | some f => rootOf p.text (← f.read octets)

/-- The document at a path, if there is one. -/
def readAt? (t : Folder) (p : Path) : Except LoadError (Option Dict) := do
  match t.find p with
  | none => return none
  | some entry => return some (← readEntry p entry)

/-- A configuration under an override that may be missing. -/
def override (base : Dict) : Option Dict → Except LoadError Dict
  | none => .ok base
  | some d => (merge (.dict base) (.dict d)).mapError .conflict

/-- The configuration of a file of defaults and, if there is one, a local file. -/
def effective (t : Folder) (defaults : String) (localFile : Option String) :
    Except LoadError Dict := do
  let p := Path.ofText defaults
  match ← readAt? t p with
  | none => throw (.noDefaults p.text)
  | some base => match localFile with
    | none => return base
    | some s => override base (← readAt? t (Path.ofText s))

/-- The configuration and its fingerprint. -/
def load (t : Folder) (defaults : String) (localFile : Option String) :
    Except LoadError (Dict × String) := do
  let config ← effective t defaults localFile
  return (config, ← (fingerprint (.dict config)).mapError .fingerprint)

end BuildPipeline.Config
