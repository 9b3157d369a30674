import BuildPipeline.Document.Shape

/-!
Build specifications. The document shows the five known phases in their own order, whatever order
they were made in, and leaves out every phase and every section that is empty.
-/
namespace BuildPipeline

structure Phase where
  commands : List String
  onFailure : Option String
  runtimes : Table String String
  deriving DecidableEq

namespace Phase

def empty : Phase := ⟨[], none, []⟩

def isEmpty (p : Phase) : Bool := p.commands.isEmpty && p.runtimes.isEmpty

/-- A policy shows only next to commands. -/
def document (p : Phase) : Value :=
  .ofTable ((if p.runtimes.isEmpty then [] else [("runtime-versions", .ofTexts p.runtimes)])
    ++ (if p.commands.isEmpty then [] else
      ("commands", .ofStrings p.commands) ::
        match p.onFailure with
        | some policy => if policy = "" then [] else [("on-failure", .str policy)]
        | none => []))

end Phase

structure BuildSpec where
  version : String
  phases : Table String Phase
  artifacts : List String
  environment : Table String String
  secrets : Table String String
  cachePaths : List String
  reports : Table String Dict
  deriving DecidableEq

namespace BuildSpec

def phaseOrder : List String := ["install", "pre_build", "build", "post_build", "finally"]

def reportKeys : List String := ["files", "file-format", "base-directory", "discard-paths"]

def empty : BuildSpec := ⟨"0.2", [], [], [], [], [], []⟩

/-- Changes a known phase, which comes into being when it is first asked for; `none` for a name
that is no phase. -/
def modifyPhase (s : BuildSpec) (name : String) (f : Phase → Phase) : Option BuildSpec :=
  if phaseOrder.contains name then
    some { s with phases := Table.modify s.phases name .empty f }
  else none

def unknownPhase (name : String) : String := "Unknown build phase: " ++ name

/-- Changes a phase that is asked for by name. A name that is no phase is a key that is missing. -/
def editPhase (s : BuildSpec) (name : String) (f : Phase → Phase) : Except ShapeError BuildSpec :=
  match s.modifyPhase name f with
  | some s => .ok s
  | none => .error (.missingKey (unknownPhase name))

/-- A section that is left out when it has no entries. -/
def part (name : String) (t : Table String Value) : Table String Value :=
  if t.isEmpty then [] else [(name, .ofTable t)]

def listPart (name field : String) (ss : List String) : Table String Value :=
  if ss.isEmpty then [] else [(name, .ofTable [(field, .ofStrings ss)])]

def textsPart (name : String) (t : Table String String) : Table String Value :=
  part name (t.mapValues .str)

def shownPhases (s : BuildSpec) : Table String Value :=
  phaseOrder.filterMap fun name =>
    match Table.get? s.phases name with
    | some p => if p.isEmpty then none else some (name, p.document)
    | none => none

/-- The known keys of a report, in their own order. -/
def shownReport (r : Dict) : Value :=
  .ofTable (reportKeys.filterMap fun k => (Dict.field r k).map (k, ·))

def document (s : BuildSpec) : Dict :=
  Dict.of ([("version", .str s.version)]
    ++ part "phases" s.shownPhases
    ++ listPart "artifacts" "files" s.artifacts
    ++ part "env" (textsPart "variables" s.environment ++ textsPart "secrets-manager" s.secrets)
    ++ listPart "cache" "paths" s.cachePaths
    ++ part "reports" (s.reports.mapValues shownReport))

end BuildSpec

end BuildPipeline
