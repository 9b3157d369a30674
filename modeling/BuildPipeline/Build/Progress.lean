import BuildPipeline.Build.Start
import BuildPipeline.Time.Iso
import BuildPipeline.Time.Span

/-!
The progress of a build that was started: its record follows the status that the service reports.
An archiver hears of a build that is over, and its failure is recorded but stops nothing.
-/
namespace BuildPipeline
open BuildPipeline.Time

structure StatusReport where
  status : Value
  endTime : Option Moment
  logsUrl : Value
  errorMessage : Value

/-- Takes the record of a build that is over. -/
abbrev Archiver := Dict → Except Failure Unit

/-- A record after a report, and what the archiver was given, if it was called. -/
structure Progress where
  record : Dict
  archived : Option Dict

namespace StatusReport

def setIf (name : String) (v : Value) (record : Dict) : Dict :=
  if v.truthy then Dict.set record name v else record

/-- The end of a build, and how long it took if its start is known. -/
def setEnd (endTime : Moment) (record : Dict) : Except TimeError Dict :=
  let record := Dict.set record "end_time" (.str endTime.iso)
  match Dict.fieldD record "start_time" with
  | .scalar (.str "") => .ok record
  | .scalar (.str s) => do
    return Dict.set record "duration_seconds" (.int (wholeSeconds (← Moment.read s) endTime))
  | v => if v.truthy then .error .notText else .ok record

/-- The record with what a report says. -/
def apply (r : StatusReport) (status : BuildStatus) (record : Dict) : Except TimeError Dict := do
  let record := Dict.set record "status" (.str status.name)
  let record ← match r.endTime with
    | none => pure record
    | some t => setEnd t record
  return setIf "error_message" r.errorMessage (setIf "logs_url" r.logsUrl record)

def archive (archiver : Option Archiver) (status : BuildStatus) (record : Dict) : Progress :=
  match archiver with
  | none => ⟨record, none⟩
  | some archiver =>
    if status.isTerminal then
      match archiver record with
      | .ok _ => ⟨record, some record⟩
      | .error e => ⟨Dict.set record "archive_error" (.str e.message), some record⟩
    else ⟨record, none⟩

/-- What a report makes of the document of a build. -/
def advance (r : StatusReport) (id : String) (archiver : Option Archiver) :
    Option Value → Except Failure Progress
  | none => .error (.report (.buildNotFound id))
  | some document => do
    let status ← (BuildStatus.read r.status).mapError Failure.shape
    let record ← document.asMutable.mapError Failure.shape
    let record ← (r.apply status record).mapError Failure.time
    return archive archiver status record

/-- Records a report in the store. -/
def record (r : StatusReport) (id : String) (archiver : Option Archiver) (store : Store) :
    Except Failure Progress × Store :=
  let progress := do
    let document ← (store.get buildsCollection id).mapError Failure.store
    r.advance id archiver document
  match progress with
  | .error e => (.error e, store)
  | .ok p => match (Store.put buildsCollection id (.dict p.record)).run store with
    | .ok _ store => (.ok p, store)
    | .error e store => (.error (.store e), store)

end StatusReport

end BuildPipeline
