import BuildPipeline.Build.Progress
import BuildPipeline.Proofs.BuildStarts

/-!
The record of a build as an audit of what was built. Reports on its progress change its status and
what goes with it, and nothing that was known at its start.
-/

namespace BuildPipeline

open BuildPipeline.Time

/-- What happens to a store of builds. -/
inductive BuildEvent
  | started (r : BuildRequest) (answer : BuildCall → Except Failure (Option BuildStart))
    (now : Moment)
  | reported (r : StatusReport) (id : String) (archiver : Option Archiver)

namespace BuildEvent

def apply (s : Store) : BuildEvent → Store
  | .started r answer now => ((r.start answer now (some s)).store).getD s
  | .reported r id archiver => (r.record id archiver s).2

/-- An event that starts no build under an identifier, and reports what JSON has. -/
def Spares (id : String) : BuildEvent → Prop
  | .started _ answer _ => ∀ c s, answer c = .ok (some s) → s.buildId ≠ some id
  | .reported r _ _ => r.logsUrl.IsJson ∧ r.errorMessage.IsJson

end BuildEvent

/-- The fields of a record that tell how a build goes on. -/
def progressFields : List String :=
  ["status", "end_time", "duration_seconds", "logs_url", "error_message", "archive_error"]

/-- The fields of a record that tell how a build was started. -/
def auditFields : List String :=
  ["build_id", "user_id", "project_id", "pipeline_id", "project_name", "buildspec",
    "buildspec_hash", "environment_variables", "start_time"]

/-- A record that JSON has and that differs from another one in its progress alone. -/
structure Dict.Follows (d' d : Dict) : Prop where
  isJson : d'.Over Value.IsJson
  fields : ∀ name, name ∉ progressFields → Dict.field d' name = Dict.field d name

namespace Dict.Follows

variable {d d' d'' : Dict} {name : String} {v : Value} {r : StatusReport}

theorem refl (h : d.Over Value.IsJson) : d.Follows d := ⟨h, fun _ _ => rfl⟩

theorem set (h : d'.Follows d) (hname : name ∈ progressFields) (hv : v.IsJson) :
    (Dict.set d' name v).Follows d where
  isJson := h.isJson.set name hv
  fields other hother := by
    rw [field_set, if_neg (ne_of_mem_of_not_mem hname hother), h.fields other hother]

theorem setIf (h : d'.Follows d) (hname : name ∈ progressFields) (hv : v.IsJson) :
    (StatusReport.setIf name v d').Follows d := by
  rw [StatusReport.setIf]
  split
  · exact h.set hname hv
  · exact h

theorem setEnd (h : d'.Follows d) {t : Moment} (hend : StatusReport.setEnd t d' = .ok d'') :
    d''.Follows d := by
  have hset : (Dict.set d' "end_time" (.str t.iso)).Follows d :=
    h.set (by decide) (admits_isJson.text _)
  rw [StatusReport.setEnd] at hend
  split at hend
  · cases hend
    exact hset
  · obtain ⟨start, -, hpure⟩ := bind_eq_ok.1 hend
    cases hpure
    exact hset.set (by decide) (admits_isJson.int _)
  · split at hend
    · cases hend
    · cases hend
      exact hset

theorem report (h : d'.Follows d) {status : BuildStatus} (hlogs : r.logsUrl.IsJson)
    (herror : r.errorMessage.IsJson) (happly : r.apply status d' = .ok d'') :
    d''.Follows d := by
  have hstatus : (Dict.set d' "status" (.str status.name)).Follows d :=
    h.set (by decide) (admits_isJson.text _)
  rw [StatusReport.apply] at happly
  cases ht : r.endTime with
  | none =>
    rw [ht] at happly
    cases happly
    exact (hstatus.setIf (by decide) hlogs).setIf (by decide) herror
  | some t =>
    rw [ht] at happly
    obtain ⟨ended, hended, hpure⟩ := bind_eq_ok.1 happly
    cases hpure
    exact ((hstatus.setEnd hended).setIf (by decide) hlogs).setIf (by decide) herror

theorem archive (h : d'.Follows d) (archiver : Option Archiver) (status : BuildStatus) :
    (StatusReport.archive archiver status d').record.Follows d := by
  rw [StatusReport.archive.eq_def]
  split
  · exact h
  · split
    · split
      · exact h
      · exact h.set (by decide) (admits_isJson.text _)
    · exact h

/-- A report leaves the rest of a record alone. -/
theorem advance {id : String} {archiver : Option Archiver} {p : Progress}
    (h : d.Over Value.IsJson) (hlogs : r.logsUrl.IsJson) (herror : r.errorMessage.IsJson)
    (hp : r.advance id archiver (some (.dict d)) = .ok p) : p.record.Follows d := by
  obtain ⟨status, -, hp⟩ := bind_eq_ok.1 hp
  obtain ⟨record, hrecord, hp⟩ := bind_eq_ok.1 hp
  cases hrecord
  obtain ⟨record, happly, hpure⟩ := bind_eq_ok.1 hp
  cases hpure
  exact ((refl h).report hlogs herror (mapError_eq_ok.1 happly)).archive archiver status

end Dict.Follows

/-- A record that JSON has and that tells the start of a build as another one does. -/
structure Dict.Agrees (d record : Dict) : Prop where
  isJson : d.Over Value.IsJson
  fields : ∀ name ∈ auditFields,
    (Dict.field d name).map Value.sorted = (Dict.field record name).map Value.sorted

namespace Dict.Agrees

variable {d d' record : Dict}

theorem refl (h : record.Over Value.IsJson) : record.Agrees record := ⟨h, fun _ _ => rfl⟩

theorem of_follows (h : d.Agrees record) (hd : d'.Follows d) : d'.Agrees record where
  isJson := hd.isJson
  fields name hname := by
    have hother : ∀ name ∈ auditFields, name ∉ progressFields := by decide
    rw [hd.fields name (hother name hname), h.fields name hname]

theorem inKeyOrder (h : d.Agrees record) : d.inKeyOrder.Agrees record where
  isJson := by
    refine over_of_isJson ?_
    rw [← sorted_dict]
    exact (admits_isJson.dict d h.isJson).sorted
  fields name hname := by
    rw [field_inKeyOrder h.isJson, ← h.fields name hname]
    cases hv : Dict.field d name with
    | none => rfl
    | some v => exact congrArg some (h.isJson.field hv).sorted_sorted

end Dict.Agrees

/-- A store whose document of a build tells its start as a record does. -/
def Store.Audits (s : Store) (id : String) (record : Dict) : Prop :=
  ∃ d, s.get buildsCollection id = .ok (some (.dict d)) ∧ Dict.Agrees d record

section Steps

variable {s s' : Store} {b b' : Backing} {c id id' : String} {d record record' : Dict}
  {r : BuildRequest} {answer : BuildCall → Except Failure (Option BuildStart)} {now : Moment}

theorem Backing.audits_put (h : b.put c id (.dict d) = .ok b') (hd : d.Agrees record) :
    ∃ d', b'.get c id = .ok (some (.dict d')) ∧ Dict.Agrees d' record := by
  have hget := get_put_self h (admits_isJson.dict d hd.isJson)
  cases b with
  | memory m => exact ⟨d, hget, hd⟩
  | directory m =>
    rw [kept, sorted_dict] at hget
    exact ⟨d.inKeyOrder, hget, hd.inKeyOrder⟩

/-- What a store shows under one identifier after it was to take a record under another one. -/
theorem get_file (h : id ≠ id') (record : Dict) (s : Store) :
    ∃ s', (BuildRequest.file id' record (some s)).2.2 = some s'
      ∧ s'.get buildsCollection id = s.get buildsCollection id := by
  rcases BuildRequest.file_cases id' record s with ⟨e, -, hfile⟩ | ⟨b, hb, -, hfile⟩ <;> rw [hfile]
  · exact ⟨_, rfl, rfl⟩
  · exact ⟨_, rfl, Backing.get_put_of_ne hb h⟩

theorem audits_file {stored : Option Dict} {failed : List String}
    (hrecord : record.Over Value.IsJson)
    (h : BuildRequest.file id record (some s) = (stored, failed, some s'))
    (hstored : stored.isSome) : s'.Audits id record := by
  rcases BuildRequest.file_cases id record s with ⟨e, -, hfile⟩ | ⟨b, hb, -, hfile⟩
  · cases hfile.symm.trans h
    cases hstored
  · cases hfile.symm.trans h
    exact Backing.audits_put hb (.refl hrecord)

theorem identifier_of_settle {p : PreparedBuild} {started : BuildStart}
    {result : Except Failure (Option BuildStart)}
    (h : r.settle p result now = .ok (id, started, record)) :
    result = .ok (some started) ∧ started.buildId = some id := by
  obtain ⟨answered, rfl, hrest⟩ := bind_eq_ok.1 h
  obtain ⟨⟨id', s⟩, hid, hrest⟩ := bind_eq_ok.1 hrest
  obtain ⟨record', -, hpure⟩ := bind_eq_ok.1 hrest
  cases hpure
  cases hidentifier : BuildStart.identifier? answered with
  | none =>
    rw [requireBuildId_of_none hidentifier] at hid
    cases hid
  | some id' =>
    obtain ⟨s', rfl, hrequired⟩ :=
      requireBuildId_of_identifier hidentifier p.call.projectName
    rw [hrequired] at hid
    cases hid
    exact ⟨rfl, (Option.filter_eq_some_iff.1 hidentifier).1⟩

/-- A start under other identifiers leaves what the store shows under one. -/
theorem get_start (h : ∀ c s, answer c = .ok (some s) → s.buildId ≠ some id) (s : Store) :
    ((BuildEvent.started r answer now).apply s).get buildsCollection id
      = s.get buildsCollection id := by
  rw [BuildEvent.apply, BuildRequest.start]
  cases r.prepare with
  | error e => rfl
  | ok p =>
    dsimp only
    cases hsettle : r.settle p (answer p.call) now with
    | error e => rfl
    | ok settled =>
      obtain ⟨id', started, record⟩ := settled
      obtain ⟨hanswer, hid⟩ := identifier_of_settle hsettle
      have hne : id ≠ id' := fun heq => h p.call started hanswer (heq ▸ hid)
      obtain ⟨s', hs', hget⟩ := get_file hne record s
      dsimp only
      rw [hs']
      exact hget

/-- A report on any build keeps what a store tells of the start of one. -/
theorem Store.Audits.reported {r : StatusReport} {archiver : Option Archiver}
    (h : s.Audits id record) (hr : (BuildEvent.reported r id' archiver).Spares id) :
    ((BuildEvent.reported r id' archiver).apply s).Audits id record := by
  obtain ⟨d, hget, hd⟩ := h
  rw [BuildEvent.apply, StatusReport.record]
  split
  · exact ⟨d, hget, hd⟩
  · rename_i p hp
    obtain ⟨document, hdocument, hp⟩ := bind_eq_ok.1 hp
    have hdocument := mapError_eq_ok.1 hdocument
    rcases s.put_cases buildsCollection id' (.dict p.record) with ⟨e, hput⟩ | ⟨b, hb, hput⟩
    · rw [hput]
      exact ⟨d, hget, hd⟩
    · rw [hput]
      by_cases hid : id = id'
      · subst hid
        cases hdocument.symm.trans hget
        exact Backing.audits_put hb (hd.of_follows (.advance hd.isJson hr.1 hr.2 hp))
      · exact ⟨d, (Backing.get_put_of_ne hb hid).trans hget, hd⟩

/-- So does every event that starts no build under its identifier. -/
theorem Store.Audits.apply {e : BuildEvent} (h : s.Audits id record) (he : e.Spares id) :
    (e.apply s).Audits id record := by
  cases e with
  | started r answer now =>
    obtain ⟨d, hget, hd⟩ := h
    exact ⟨d, (get_start he s).trans hget, hd⟩
  | reported r id' archiver => exact h.reported he

theorem Store.Audits.foldl {events : List BuildEvent} (h : s.Audits id record)
    (hevents : ∀ e ∈ events, e.Spares id) : (events.foldl BuildEvent.apply s).Audits id record := by
  induction events generalizing s with
  | nil => exact h
  | cons e events ih =>
    obtain ⟨he, hevents⟩ := List.forall_mem_cons.1 hevents
    exact ih (h.apply he) hevents

end Steps

/-- A field of a record holds a value, up to the order of keys. -/
def Dict.Holds (d : Dict) (name : String) (v : Value) : Prop :=
  ∃ w, Dict.field d name = some w ∧ Value.Reordered w v

/-- A record tells which build was started for a request, and when, and holds what was compiled for
it with its fingerprint. -/
structure BuildRequest.Audit (r : BuildRequest) (spec : BuildSpec) (id project : String)
    (startTime : Moment) (d : Dict) : Prop where
  buildId : Dict.field d "build_id" = some (.str id)
  userId : Dict.Holds d "user_id" r.userId
  projectId : Dict.Holds d "project_id" r.projectId
  pipelineId : Dict.Holds d "pipeline_id" r.pipelineId
  projectName : Dict.field d "project_name" = some (.str project)
  env : Dict.Holds d "environment_variables" (if r.env.truthy then r.env else .null)
  startTime : Dict.field d "start_time" = some (.str startTime.iso)
  buildspec : ∃ v hash, Dict.field d "buildspec" = some v
    ∧ Value.Reordered v (.dict spec.document) ∧ fingerprint v = .ok hash
    ∧ Dict.field d "buildspec_hash" = some (.str hash)

section Audits

variable {d record : Dict} {name id hash : String} {v : Value} {r : BuildRequest}
  {definition : Definition} {p : PreparedBuild} {started : BuildStart} {now : Moment}

theorem Dict.Agrees.holds (h : Dict.Agrees d record) (hname : name ∈ auditFields)
    (hv : Dict.field record name = some v) (hjson : v.IsJson) : Dict.Holds d name v := by
  have hfield := h.fields name hname
  rw [hv, Option.map_some, Option.map_eq_some_iff] at hfield
  obtain ⟨w, hw, hsorted⟩ := hfield
  exact ⟨w, hw, ((h.isJson.field hw).reordered_iff hjson).2 hsorted⟩

theorem Dict.Agrees.text {t : String} (h : Dict.Agrees d record) (hname : name ∈ auditFields)
    (hv : Dict.field record name = some (.str t)) : Dict.field d name = some (.str t) := by
  obtain ⟨w, hw, hreordered⟩ := h.holds hname hv (admits_isJson.text t)
  cases w with
  | scalar s => exact hw.trans (congrArg some hreordered)
  | _ => cases hreordered

/-- Documents that JSON has have one fingerprint if they differ in the order of keys only. -/
theorem fingerprint_of_reordered {spec : Dict} (hv : v.IsJson) (hspec : (Value.dict spec).IsJson)
    (h : Value.Reordered v (.dict spec)) : fingerprint v = fingerprint (.dict spec) := by
  cases v with
  | dict es =>
    rw [fingerprint, fingerprint, Json.canonical, Json.canonical,
      Json.write_of_reordered hv hspec h]
  | _ => cases h

theorem BuildRequest.IsJson.audit_of_agrees (hr : r.IsJson) (hp : r.Prepares definition p)
    (hhash : fingerprint (.dict p.spec.document) = .ok hash)
    (h : Dict.Agrees d (r.recordWith p id started now hash)) :
    r.Audit p.spec id p.call.projectName (started.startTime.getD now) d := by
  have hrecord := over_recordWith hr hp id started now hash
  have hspec : Dict.field (r.recordWith p id started now hash) "buildspec"
      = some (.dict p.spec.document) := rfl
  obtain ⟨v, hv, hreordered⟩ := h.holds (by decide) hspec (hrecord.field hspec)
  have hfingerprint := fingerprint_of_reordered (h.isJson.field hv) (hrecord.field hspec) hreordered
  have henv : Dict.field (r.recordWith p id started now hash) "environment_variables"
      = some (if r.env.truthy then r.env else .null) := by
    rw [hr.shown_env hp]
    rfl
  exact {
    buildId := h.text (by decide) rfl
    userId := h.holds (by decide) rfl hr.userId
    projectId := h.holds (by decide) rfl hr.projectId
    pipelineId := h.holds (by decide) rfl hr.pipelineId
    projectName := h.text (by decide) rfl
    env := h.holds (by decide) henv (hrecord.field henv)
    startTime := h.text (by decide) rfl
    buildspec := ⟨v, hash, hv, hreordered, hfingerprint.trans hhash, h.text (by decide) rfl⟩ }

/-- The record of a build, once a store took it, stays an audit of what was built, whatever is
reported on builds and whichever builds under other identifiers are started. -/
theorem record_audited (hr : r.IsJson) {answer : BuildCall → Except Failure (Option BuildStart)}
    {s s' : Store} {out : BuildOutcome} {events : List BuildEvent}
    (hout : (r.start answer now (some s)).result = .ok out) (hrecord : out.record.isSome)
    (hs : (r.start answer now (some s)).store = some s')
    (hevents : ∀ e ∈ events, e.Spares out.buildId) :
    ∃ c started spec d, (r.start answer now (some s)).call = some c ∧ answer c = .ok (some started)
      ∧ Definition.compileValue r.definition = .ok spec
      ∧ (events.foldl BuildEvent.apply s').get buildsCollection out.buildId = .ok (some (.dict d))
      ∧ r.Audit spec out.buildId out.projectName (started.startTime.getD now) d := by
  have hcourse := BuildRequest.course_start hr.definition answer now (some s)
  generalize r.start answer now (some s) = run at *
  cases hcourse with
  | started definition p id started hash stored failed store' hprepare hp hanswer hid hhash hfile =>
    cases hout
    cases hs
    have hover := BuildRequest.over_recordWith hr hp id started now hash
    have haudits := audits_file hover hfile hrecord
    obtain ⟨d, hget, hagrees⟩ := haudits.foldl hevents
    refine ⟨p.call, started, p.spec, d, rfl, hanswer, ?_, hget, hr.audit_of_agrees hp hhash hagrees⟩
    rw [hp.spec]
    exact Definition.compileValue_of_read hp.definition
  | _ => cases hout

end Audits

/-- A folder of documents that takes everything. -/
def pages : Store := .ofBacking (.directory (.empty ["pages"])) fun _ => false

/-- Another build is started, and then the first one ends, with an archiver that fails. -/
def nightlyEvents : List BuildEvent := [
  .started nightlyRequest (naming "b-2") midnight,
  .reported ⟨.str "succeeded", some midnight, .str "logs/b-1", .null⟩ "b-1"
    (some fun _ => .error (.store (.unavailable "archive" "b-1")))]

theorem record_audited_nightly : nightlyRequest.IsJson ∧ ∃ out s spec d,
    (nightlyRequest.start (naming "b-1") midnight (some pages)).result = .ok out
    ∧ out.record.isSome
    ∧ (nightlyRequest.start (naming "b-1") midnight (some pages)).store = some s
    ∧ (∀ e ∈ nightlyEvents, e.Spares "b-1")
    ∧ (nightlyEvents.foldl BuildEvent.apply s).get buildsCollection "b-1" = .ok (some (.dict d))
    ∧ nightlyRequest.Audit spec "b-1" "ci-web-app-ana" midnight d := by
  obtain ⟨definition, p, hash, hprepare, hp, hstart⟩ :=
    start_nightly "b-1" (by decide) midnight (some pages)
  have hshort : nightlyRequest.userId.Short ∧ nightlyRequest.projectId.Short
      ∧ nightlyRequest.pipelineId.Short ∧ nightlyRequest.env.Short := by decide
  obtain ⟨huser, hproject, hpipeline, henv⟩ := hshort
  have hsafe : DirectoryStore.isSafe "b-1" := by decide
  obtain ⟨s, hfile⟩ := BuildRequest.file_directory isJson_nightlyRequest hp huser hproject hpipeline
    henv (.empty ["pages"]) hsafe ⟨some "b-1", none, none⟩ midnight hash
  rw [← pages] at hfile
  rw [hfile] at hstart
  have hevents : ∀ e ∈ nightlyEvents, e.Spares "b-1" := by
    refine List.forall_mem_cons.2 ⟨fun c s h => ?_, List.forall_mem_cons.2 ⟨?_, by simp⟩⟩
    · cases h
      decide
    · exact ⟨admits_isJson.text _, admits_isJson.null⟩
  have hname : p.call.projectName = "ci-web-app-ana" := by
    have hread : projectName "ci" (.str "web app") (.str "ana") = .ok "ci-web-app-ana" := by decide
    exact Except.ok.inj (hp.project.symm.trans hread)
  obtain ⟨c, started, spec, d, -, hanswer, -, hget, haudit⟩ := record_audited isJson_nightlyRequest
    (congrArg BuildRun.result hstart) rfl (congrArg BuildRun.store hstart) hevents
  cases hanswer
  rw [hname] at haudit
  exact ⟨isJson_nightlyRequest, _, s, spec, d, congrArg BuildRun.result hstart, rfl,
    congrArg BuildRun.store hstart, hevents, hget, haudit⟩

end BuildPipeline
