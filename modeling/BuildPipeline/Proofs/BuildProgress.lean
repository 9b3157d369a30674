import BuildPipeline.Proofs.IsoMoments
import BuildPipeline.Proofs.Number.FloatBits
import BuildPipeline.Proofs.ProgressReports

/-!
The progress of a build as a store shows it. Whatever was reported before, an update fails and
changes nothing, or the store shows the record that it answers, which tells all that was recorded.
An archiver hears of a build that is over, and stops nothing.
-/

namespace BuildPipeline

open BuildPipeline.Time

section Spans

open Number

/-- The whole part of a float has fewer digits than JSON takes. -/
theorem whole_lt (x : Float) : whole x < 10 ^ Json.maxDigits := by
  have hpos : 0 < 10 ^ Json.maxDigits := by decide +kernel
  rw [whole, truncate?]
  cases hx : decode x with
  | finite negative m q =>
    have hc := (of_decode_finite hx).1
    have hpart : wholePart m q < 10 ^ Json.maxDigits := by
      calc wholePart m q ≤ m * 2 ^ q.toNat := Nat.div_le_self _ _
        _ ≤ 2 ^ 53 * 2 ^ 971 := Nat.mul_le_mul hc.significand.le
          (Nat.pow_le_pow_right (by decide) (by have := hc.greatest; omega))
        _ < 10 ^ Json.maxDigits := by decide +kernel
    cases negative
    · exact hpart
    · change (-(wholePart m q : Int)).toNat < _
      omega
  | _ => exact hpos

end Spans

namespace Backing

variable {b b' : Backing} {c k : String} {v : Value} {d : Dict}

/-- A value that a backing can keep: JSON has it, and in files its numbers are short enough. -/
structure Takes (b : Backing) (v : Value) : Prop where
  isJson : v.IsJson
  short : ∀ m, b = .directory m → v.Short

theorem over_isJson (h : d.Over b.Takes) : d.Over Value.IsJson := by
  obtain ⟨t, rfl, hdistinct, ht⟩ := h
  exact Dict.over_of hdistinct fun e he => (ht e he).isJson

theorem takes_dict : b.Takes (.dict d) ↔ d.Over b.Takes := by
  constructor
  · intro h
    obtain ⟨t, rfl, hdistinct, ht⟩ := over_of_isJson h.isJson
    exact Dict.over_of hdistinct fun e he =>
      ⟨ht e he, fun m hm => Value.short_ofTable.1 (h.short m hm) e he⟩
  · intro h
    refine ⟨admits_isJson.dict d (over_isJson h), ?_⟩
    obtain ⟨t, rfl, -, ht⟩ := h
    exact fun m hm => Value.short_ofTable.2 fun e he => (ht e he).short m hm

theorem takes_text (b : Backing) (t : String) : b.Takes (.str t) :=
  ⟨admits_isJson.text t, fun _ _ => by simp [Value.Short, Value.wholes]⟩

theorem takes_seconds (b : Backing) (s t : Moment) : b.Takes (.int (wholeSeconds s t)) := by
  have hlt : wholeSeconds s t < 10 ^ Json.maxDigits := whole_lt (secondsBetween s t)
  exact ⟨admits_isJson.int _, fun _ _ => by simpa [Value.Short, Value.wholes] using hlt⟩

/-- A backing that shows something in a place has room there for what it takes. -/
theorem exists_put {o : Option Value} (hget : b.get c k = .ok o) (hv : b.Takes v) :
    ∃ b', b.put c k v = .ok b' := by
  cases b with
  | memory m => exact ⟨_, rfl⟩
  | directory m =>
    obtain ⟨text, htext⟩ := (Json.exists_write_iff_short (l := .indented) hv.isJson).2
      (hv.short m rfl)
    obtain ⟨place, hplace, -⟩ := bind_eq_ok.1 hget
    have hsafe := (place_eq_ok.1 hplace).1
    exact ⟨_, map_eq_ok.2 ⟨_, DirectoryStore.put_eq_ok.2 ⟨hsafe, text, htext, rfl⟩, rfl⟩⟩

/-- What was put is taken in the form that is kept. -/
theorem takes_kept (h : b.put c k v = .ok b') (hv : v.IsJson) : b'.Takes (b.kept v) := by
  refine ⟨(b.kept_of_isJson hv).1, ?_⟩
  cases b with
  | memory m =>
    cases h
    exact nofun
  | directory m =>
    intro _ _
    obtain ⟨m', hm', -⟩ := map_eq_ok.1 h
    obtain ⟨-, text, htext, -⟩ := DirectoryStore.put_eq_ok.1 hm'
    rw [Json.write_of_reordered hv.sorted hv hv.reordered_sorted] at htext
    exact (Json.exists_write_iff_short hv.sorted).1 ⟨text, htext⟩

end Backing

/-- A report on a build with the archiver that is to hear of its end. -/
structure BuildUpdate where
  report : StatusReport
  archiver : Option Archiver

namespace BuildUpdate

def record (u : BuildUpdate) (id : String) (s : Store) : Except Failure Progress × Store :=
  u.report.record id u.archiver s

theorem record_eq {u : BuildUpdate} {id : String} {s : Store} {o : Option Value}
    (hget : s.get buildsCollection id = .ok o) : u.record id s =
      match u.report.advance id u.archiver o with
      | .error e => (.error e, s)
      | .ok p => match (Store.put buildsCollection id (.dict p.record)).run s with
        | .ok _ s => (.ok p, s)
        | .error e s => (.error (.store e), s) := by
  rw [record, StatusReport.record, hget]
  rfl

/-- A store after updates of a build, and the reports that were recorded. -/
def follow (id : String) : List BuildUpdate → Store → Store × List StatusReport
  | [], s => (s, [])
  | u :: us, s =>
    let after := follow id us (u.record id s).2
    match (u.record id s).1 with
    | .ok _ => (after.1, u.report :: after.2)
    | .error _ => after

end BuildUpdate

/-- A store shows a record of a build that tells what some reports said. -/
def Store.Tells (s : Store) (id : String) (record : Dict) (begun : Moment)
    (us : List StatusReport) : Prop :=
  ∃ d : Dict, s.get buildsCollection id = .ok (some (.dict d)) ∧ d.Over s.backing.Takes
    ∧ d.Tells record begun us

/-- What an update answers: a record that tells its report too, and whether the archiver heard of
the end of the build, of which it was told all that the record has beside its own failure. -/
structure Progress.Answers (p : Progress) (record : Dict) (begun : Moment)
    (us : List StatusReport) (u : BuildUpdate) : Prop where
  tells : p.record.Tells record begun (us ++ [u.report])
  status : ∃ status, BuildStatus.read u.report.status = .ok status
    ∧ Dict.field p.record "status" = some (.str status.name)
    ∧ (p.archived.isSome ↔ u.archiver.isSome ∧ status.isTerminal)
  heard : ∀ d, p.archived = some d → ∃ archiver, u.archiver = some archiver
    ∧ (∀ name, name ≠ "archive_error" → Dict.field d name = Dict.field p.record name)
    ∧ ∀ e, archiver d = .error e →
      Dict.field p.record "archive_error" = some (.str e.message)

section Steps

variable {s : Store} {b b' : Backing} {id c : String} {record d : Dict} {begun : Moment}
  {us : List StatusReport} {u : BuildUpdate} {status : BuildStatus}

theorem answers_archive (hstatus : BuildStatus.read u.report.status = .ok status)
    (hd : d.Tells record begun (us ++ [u.report]))
    (hfield : Dict.field d "status" = some (.str status.name)) :
    (StatusReport.archive u.archiver status d).Answers record begun us u := by
  have hset (v : Value) :
      Dict.field (Dict.set d "archive_error" v) "status" = some (.str status.name) := by
    rw [Dict.field_set, if_neg (by decide), hfield]
  rw [StatusReport.archive.eq_def]
  cases ha : u.archiver with
  | none => exact ⟨hd, ⟨status, hstatus, hfield, by simp [ha]⟩, by rintro _ ⟨⟩⟩
  | some archiver =>
    dsimp only
    split
    case isFalse hterminal =>
      exact ⟨hd, ⟨status, hstatus, hfield, by simp [hterminal]⟩, by rintro _ ⟨⟩⟩
    case isTrue hterminal =>
      cases hresult : archiver d with
      | ok =>
        refine ⟨hd, ⟨status, hstatus, hfield, by simp [ha, hterminal]⟩, ?_⟩
        rintro _ ⟨⟩
        exact ⟨archiver, ha, fun _ _ => rfl, fun e he => by cases hresult.symm.trans he⟩
      | error e =>
        refine ⟨hd.archiveError _, ⟨status, hstatus, hset _, by simp [ha, hterminal]⟩, ?_⟩
        rintro _ ⟨⟩
        refine ⟨archiver, ha, fun name hname => ?_, fun e' he => ?_⟩
        · rw [Dict.field_set, if_neg hname.symm]
        · cases hresult.symm.trans he
          rw [Dict.field_set, if_pos rfl]

/-- A record that is put is shown and tells the same. -/
theorem Backing.tells_put (h : b.put c id (.dict d) = .ok b') (hd : d.Over Value.IsJson)
    (htells : d.Tells record begun us) (hrecord : record.Over Value.IsJson)
    (hus : ∀ u ∈ us, u.IsJson) :
    ∃ d' : Dict, b'.get c id = .ok (some (.dict d')) ∧ Value.Reordered (.dict d') (.dict d)
      ∧ d'.Over b'.Takes ∧ d'.Tells record begun us := by
  have hjson := admits_isJson.dict d hd
  have hget := get_put_self h hjson
  have hreordered := (b.kept_of_isJson hjson).2
  have htakes := takes_kept h hjson
  cases b with
  | memory m => exact ⟨d, hget, hreordered, takes_dict.1 htakes, htells⟩
  | directory m =>
    rw [kept, sorted_dict] at hget hreordered htakes
    exact ⟨d.inKeyOrder, hget, hreordered, takes_dict.1 htakes,
      htells.inKeyOrder hd hrecord hus⟩

/-- An update fails and changes no document, or what it answers is shown. -/
theorem Store.Tells.step (h : s.Tells id record begun us) (hrecord : record.Over Value.IsJson)
    (hus : ∀ u ∈ us, u.IsJson) (hu : u.report.IsJson) :
    (∃ e s', u.record id s = (.error e, s') ∧ s'.backing = s.backing)
    ∨ ∃ p s', ∃ d : Dict, u.record id s = (.ok p, s') ∧ p.Answers record begun us u
      ∧ s'.get buildsCollection id = .ok (some (.dict d))
      ∧ Value.Reordered (.dict d) (.dict p.record)
      ∧ s'.Tells id record begun (us ++ [u.report]) := by
  obtain ⟨d, hget, hd, htells⟩ := h
  obtain ⟨text, htext, hread⟩ := htells.startTime
  have hjson := Backing.over_isJson hd
  cases hstatus : BuildStatus.read u.report.status with
  | error e =>
    refine .inl ⟨.shape e, s, ?_, rfl⟩
    rw [BuildUpdate.record_eq hget, StatusReport.advance_of_unread hstatus]
  | ok status =>
    rw [BuildUpdate.record_eq hget, StatusReport.advance_eq htext hread hstatus]
    have hanswers := answers_archive hstatus (htells.recorded hu status)
      (StatusReport.field_recorded u.report status begun d "status")
    have hrecorded := StatusReport.over_recorded status begun hjson admits_isJson.text
      (fun _ _ => admits_isJson.int _) hu.logsUrl hu.errorMessage
    have hover := StatusReport.over_archive hrecorded admits_isJson.text u.archiver status
    generalize StatusReport.archive u.archiver status _ = p at hanswers hover
    dsimp only
    rcases s.put_cases buildsCollection id (.dict p.record) with ⟨e, hput⟩ | ⟨b, hb, hput⟩
    · rw [hput]
      exact .inl ⟨.store e, _, rfl, rfl⟩
    · rw [hput]
      obtain ⟨d', hget', hreordered, htakes, htells'⟩ :=
        Backing.tells_put hb hover hanswers.tells hrecord (StatusReport.isJson_concat hus hu)
      exact .inr ⟨p, _, d', rfl, hanswers, hget', hreordered, d', hget', htakes, htells'⟩

theorem BuildUpdate.refuses_record (u : BuildUpdate) (id : String) (s : Store) :
    (u.record id s).2.refuses = s.refuses := by
  rw [record, StatusReport.record]
  split
  · rfl
  · rename_i p _
    rcases s.put_cases buildsCollection id (.dict p.record) with ⟨e, hput⟩ | ⟨b, -, hput⟩ <;>
      rw [hput]

/-- A store that refuses nothing puts what its backing can keep. -/
theorem Store.run_put {v : Value} (hrefuses : ∀ n, s.refuses n = false)
    (h : s.backing.put c id v = .ok b) : ∃ s', (Store.put c id v).run s = .ok () s' := by
  rcases s.put_cases c id v with ⟨e, hput⟩ | ⟨b, -, hput⟩
  · simp [Store.put, hrefuses, h, liftExcept, EStateM.run_bind] at hput
  · exact ⟨_, hput⟩

/-- Such a store takes every proper update, whatever the archiver makes of it. -/
theorem Store.Tells.accepts (h : s.Tells id record begun us) (hrefuses : ∀ n, s.refuses n = false)
    (hu : u.report.IsJson) (hproper : u.report.Proper) : ∃ p, (u.record id s).1 = .ok p := by
  obtain ⟨d, hget, hd, htells⟩ := h
  obtain ⟨text, htext, hread⟩ := htells.startTime
  obtain ⟨status, hstatus⟩ := hproper.status
  have hlogs : s.backing.Takes u.report.logsUrl := ⟨hu.logsUrl, fun _ _ => hproper.logsUrl⟩
  have herror : s.backing.Takes u.report.errorMessage :=
    ⟨hu.errorMessage, fun _ _ => hproper.errorMessage⟩
  have hrecorded := StatusReport.over_recorded status begun hd s.backing.takes_text
    s.backing.takes_seconds hlogs herror
  have htakes := StatusReport.over_archive hrecorded s.backing.takes_text u.archiver status
  rw [BuildUpdate.record_eq hget, StatusReport.advance_eq htext hread hstatus]
  generalize StatusReport.archive u.archiver status _ = p at htakes
  obtain ⟨b, hb⟩ := Backing.exists_put hget (Backing.takes_dict.2 htakes)
  obtain ⟨s', hput⟩ := Store.run_put hrefuses hb
  dsimp only
  rw [hput]
  exact ⟨p, rfl⟩

end Steps

section Runs

variable {s s' : Store} {id : String} {record : Dict} {begun : Moment} {us : List StatusReport}
  {vs : List BuildUpdate}

theorem Store.Tells.of_backing (h : s.Tells id record begun us) (hs : s'.backing = s.backing) :
    s'.Tells id record begun us := by
  obtain ⟨d, hget, hd, htells⟩ := h
  refine ⟨d, ?_, hs ▸ hd, htells⟩
  rw [Store.get, hs]
  exact hget

/-- After any updates the record tells the reports that were recorded. -/
theorem Store.Tells.follow (h : s.Tells id record begun us) (hrecord : record.Over Value.IsJson)
    (hus : ∀ u ∈ us, u.IsJson) (hvs : ∀ v ∈ vs, v.report.IsJson) :
    (BuildUpdate.follow id vs s).1.Tells id record begun (us ++ (BuildUpdate.follow id vs s).2)
      ∧ ∀ u ∈ us ++ (BuildUpdate.follow id vs s).2, u.IsJson := by
  induction vs generalizing s us with
  | nil => exact ⟨by simpa [BuildUpdate.follow] using h, by simpa [BuildUpdate.follow] using hus⟩
  | cons v vs ih =>
    obtain ⟨hv, hvs⟩ := List.forall_mem_cons.1 hvs
    rw [BuildUpdate.follow]
    rcases h.step hrecord hus hv with ⟨e, s', hrun, hbacking⟩ | ⟨p, s', d, hrun, -, -, -, htells⟩
    · rw [hrun]
      exact ih (h.of_backing hbacking) hus hvs
    · rw [hrun]
      dsimp only
      rw [List.append_cons]
      exact ih htells (StatusReport.isJson_concat hus hv) hvs

theorem refuses_follow (id : String) (vs : List BuildUpdate) (s : Store) :
    (BuildUpdate.follow id vs s).1.refuses = s.refuses := by
  induction vs generalizing s with
  | nil => rfl
  | cons v vs ih =>
    rw [BuildUpdate.follow]
    split <;> exact (ih _).trans (v.refuses_record id s)

/-- A store that refuses nothing misses no proper report. -/
theorem Store.Tells.follow_proper (h : s.Tells id record begun us)
    (hrecord : record.Over Value.IsJson) (hus : ∀ u ∈ us, u.IsJson)
    (hvs : ∀ v ∈ vs, v.report.IsJson) (hrefuses : ∀ n, s.refuses n = false)
    (hproper : ∀ v ∈ vs, v.report.Proper) :
    (BuildUpdate.follow id vs s).2 = vs.map (·.report) := by
  induction vs generalizing s us with
  | nil => rfl
  | cons v vs ih =>
    obtain ⟨hv, hvs⟩ := List.forall_mem_cons.1 hvs
    obtain ⟨hv', hproper⟩ := List.forall_mem_cons.1 hproper
    obtain ⟨p, hp⟩ := h.accepts hrefuses hv hv'
    have hrefuses' := v.refuses_record id s
    rw [BuildUpdate.follow]
    rcases h.step hrecord hus hv with ⟨e, s', hrun, -⟩ | ⟨p', s', d, hrun, -, -, -, htells⟩
    · rw [hrun] at hp
      cases hp
    · rw [hrun] at hrefuses' ⊢
      rw [List.map_cons]
      exact congrArg _ (ih htells (StatusReport.isJson_concat hus hv) hvs
        (fun n => (congrFun hrefuses' n).trans (hrefuses n)) hproper)

/-- What the next update leads to after any others. -/
theorem Store.Tells.followed {u : BuildUpdate} (h : s.Tells id record begun [])
    (hrecord : record.Over Value.IsJson) (hvs : ∀ v ∈ vs, v.report.IsJson) (hu : u.report.IsJson) :
    let before := BuildUpdate.follow id vs s
    let after := u.record id before.1
    (∀ e, after.1 = .error e → after.2.backing = before.1.backing)
    ∧ (∀ p, after.1 = .ok p → p.Answers record begun before.2 u
      ∧ ∃ d : Dict, after.2.get buildsCollection id = .ok (some (.dict d))
        ∧ Value.Reordered (.dict d) (.dict p.record))
    ∧ ((∀ n, s.refuses n = false) → (∀ v ∈ vs, v.report.Proper) →
      before.2 = vs.map (·.report) ∧ (u.report.Proper → ∃ p, after.1 = .ok p)) := by
  intro before after
  obtain ⟨hbefore, hus⟩ := h.follow hrecord (by simp) hvs
  rw [List.nil_append] at hbefore hus
  have hstep := hbefore.step hrecord hus hu
  refine ⟨fun e he => ?_, fun p hp => ?_, fun hrefuses hproper =>
    ⟨h.follow_proper hrecord (by simp) hvs hrefuses hproper, fun hu' => ?_⟩⟩
  · rcases hstep with ⟨e', s', hrun, hbacking⟩ | ⟨p, s', d, hrun, -⟩
    · rw [show after = _ from hrun]
      exact hbacking
    · cases (congrArg Prod.fst hrun).symm.trans he
  · rcases hstep with ⟨e', s', hrun, -⟩ | ⟨p', s', d, hrun, hanswers, hget, hreordered, -⟩
    · cases (congrArg Prod.fst hrun).symm.trans hp
    · cases (congrArg Prod.fst hrun).symm.trans hp
      rw [show after = _ from hrun]
      exact ⟨hanswers, d, hget, hreordered⟩
  · have hrefuses' : before.1.refuses = s.refuses := refuses_follow id vs s
    exact hbefore.accepts (fun n => (congrFun hrefuses' n).trans (hrefuses n)) hu hu'

/-- The record of a build that was just started tells nothing yet. -/
theorem tells_recordWith {r : BuildRequest} {p : PreparedBuild} {started : BuildStart}
    {now : Moment} {hash : String} (h : (r.recordWith p id started now hash).Over Value.IsJson)
    (hvalid : (started.startTime.getD now).Valid) :
    (r.recordWith p id started now hash).Tells (r.recordWith p id started now hash)
      (started.startTime.getD now).reread [] where
  startTime := ⟨_, rfl, Moment.read_iso_reread hvalid⟩
  endTime := rfl
  duration := rfl
  logsUrl := ⟨.null, rfl, rfl⟩
  errorMessage := ⟨.null, rfl, rfl⟩
  others name _ := by
    cases hv : Dict.field (r.recordWith p id started now hash) name with
    | none => exact .none
    | some v => exact .some ((h.field hv).reordered_iff (h.field hv) |>.2 rfl)

/-- So does the store that took it. -/
theorem tells_start {r : BuildRequest} (hr : r.IsJson)
    {answer : BuildCall → Except Failure (Option BuildStart)} {now : Moment} {out : BuildOutcome}
    (hout : (r.start answer now (some s)).result = .ok out) (hrecord : out.record = some record)
    (hs : (r.start answer now (some s)).store = some s')
    (hmoment : ∀ c started, answer c = .ok (some started) → (started.startTime.getD now).Valid) :
    record.Over Value.IsJson ∧ s'.refuses = s.refuses
      ∧ ∃ begun, record.Tells record begun [] ∧ s'.Tells out.buildId record begun [] := by
  have hcourse := BuildRequest.course_start hr.definition answer now (some s)
  generalize r.start answer now (some s) = run at *
  cases hcourse with
  | started definition p id started hash stored failed store' hprepare hp hanswer hid hhash hfile =>
    cases hout
    cases hs
    cases hrecord
    have hover := BuildRequest.over_recordWith hr hp id started now hash
    have htells := tells_recordWith hover (hmoment _ _ hanswer)
    rcases BuildRequest.file_cases id (r.recordWith p id started now hash) s with
      ⟨e, -, hfile'⟩ | ⟨b, hb, -, hfile'⟩
    · cases hfile'.symm.trans hfile
    · cases hfile'.symm.trans hfile
      obtain ⟨d, hget, -, htakes, htells'⟩ := Backing.tells_put hb hover htells hover (by simp)
      exact ⟨hover, rfl, _, htells, d, hget, htakes, htells'⟩
  | _ => cases hout

/-- After any updates of a build whose record a store took when it was started, the next update
either fails, and then no document changes, or it answers the record that the store then shows. That
record tells this report and the ones that were recorded before, and if the build is over its
archiver heard of it. A store that refuses nothing records every proper report, whether archivers
fail or not. -/
theorem progress_followed {r : BuildRequest} (hr : r.IsJson)
    {answer : BuildCall → Except Failure (Option BuildStart)} {now : Moment} {s s' : Store}
    {out : BuildOutcome} {record : Dict} {vs : List BuildUpdate} {u : BuildUpdate}
    (hout : (r.start answer now (some s)).result = .ok out) (hrecord : out.record = some record)
    (hs : (r.start answer now (some s)).store = some s')
    (hmoment : ∀ c started, answer c = .ok (some started) → (started.startTime.getD now).Valid)
    (hvs : ∀ v ∈ vs, v.report.IsJson) (hu : u.report.IsJson) :
    let before := BuildUpdate.follow out.buildId vs s'
    let after := u.record out.buildId before.1
    ∃ text begun, Dict.field record "start_time" = some (.str text) ∧ Moment.read text = .ok begun
      ∧ (∀ e, after.1 = .error e → after.2.backing = before.1.backing)
      ∧ (∀ p, after.1 = .ok p → p.Answers record begun before.2 u
        ∧ ∃ d : Dict, after.2.get buildsCollection out.buildId = .ok (some (.dict d))
          ∧ Value.Reordered (.dict d) (.dict p.record))
      ∧ ((∀ n, s.refuses n = false) → (∀ v ∈ vs, v.report.Proper) →
        before.2 = vs.map (·.report) ∧ (u.report.Proper → ∃ p, after.1 = .ok p)) := by
  intro before after
  obtain ⟨hover, hrefuses, begun, htells, hshown⟩ := tells_start hr hout hrecord hs hmoment
  obtain ⟨text, htext, hread⟩ := htells.startTime
  rw [← hrefuses]
  exact ⟨text, begun, htext, hread, hshown.followed hover hvs hu⟩

end Runs

/-- A build that goes on, and then fails after a minute and a half; its archiver fails as well. -/
def nightlyUpdates : List BuildUpdate := [
  ⟨⟨.str "in_progress", none, .str "logs/b-1", .null⟩, none⟩,
  ⟨⟨.str "failed", some ⟨midnight.micros + 90 * second, some 0⟩, .str "", .str "2 tests failed"⟩,
    some fun _ => .error (.store (.unavailable "archive" "b-1"))⟩]

/-- In the end it succeeded, with nothing more to tell. -/
def nightlySuccess : BuildUpdate := ⟨⟨.str "succeeded", none, .null, .null⟩, some fun _ => .ok ()⟩

theorem progress_followed_nightly : nightlyRequest.IsJson ∧ ∃ out record s p,
    (nightlyRequest.start (naming "b-1") midnight (some pages)).result = .ok out
    ∧ out.record = some record
    ∧ (nightlyRequest.start (naming "b-1") midnight (some pages)).store = some s
    ∧ (∀ c started, naming "b-1" c = .ok (some started) →
      (started.startTime.getD midnight).Valid)
    ∧ (∀ v ∈ nightlyUpdates, v.report.IsJson) ∧ nightlySuccess.report.IsJson
    ∧ (nightlySuccess.record "b-1" (BuildUpdate.follow "b-1" nightlyUpdates s).1).1 = .ok p
    ∧ Dict.field p.record "status" = some (.str "succeeded")
    ∧ Dict.field p.record "duration_seconds" = some (.int 90)
    ∧ Dict.Holds p.record "logs_url" (.str "logs/b-1")
    ∧ Dict.Holds p.record "error_message" (.str "2 tests failed")
    ∧ p.archived.isSome := by
  obtain ⟨definition, prepared, hash, hprepare, hp, hstart⟩ :=
    start_nightly "b-1" (by decide) midnight (some pages)
  have hshort : nightlyRequest.userId.Short ∧ nightlyRequest.projectId.Short
      ∧ nightlyRequest.pipelineId.Short ∧ nightlyRequest.env.Short := by decide
  obtain ⟨huser, hproject, hpipeline, henv⟩ := hshort
  have hsafe : DirectoryStore.isSafe "b-1" := by decide
  obtain ⟨s, hfile⟩ := BuildRequest.file_directory isJson_nightlyRequest hp huser hproject hpipeline
    henv (.empty ["pages"]) hsafe ⟨some "b-1", none, none⟩ midnight hash
  rw [← pages] at hfile
  rw [hfile] at hstart
  have hmoment : ∀ c started, naming "b-1" c = .ok (some started) →
      (started.startTime.getD midnight).Valid := by
    intro c started h
    cases h
    decide
  have hjson : ∀ v ∈ nightlyUpdates, v.report.IsJson :=
    List.forall_mem_cons.2 ⟨⟨admits_isJson.text _, admits_isJson.null⟩,
      List.forall_mem_singleton.2 ⟨admits_isJson.text _, admits_isJson.text _⟩⟩
  have hjson' : nightlySuccess.report.IsJson := ⟨admits_isJson.null, admits_isJson.null⟩
  have hproper : ∀ v ∈ nightlyUpdates, v.report.Proper :=
    List.forall_mem_cons.2 ⟨⟨⟨.inProgress, by decide⟩, by decide, by decide⟩,
      List.forall_mem_singleton.2 ⟨⟨.failed, by decide⟩, by decide, by decide⟩⟩
  have hread : BuildStatus.read (.str "succeeded") = .ok .succeeded := by decide
  obtain ⟨text, begun, htext, hbegun, -, hanswers, htaken⟩ :=
    progress_followed isJson_nightlyRequest (congrArg BuildRun.result hstart) rfl
      (congrArg BuildRun.store hstart) hmoment hjson hjson'
  obtain ⟨htaken, haccepts⟩ := htaken (fun _ => rfl) hproper
  obtain ⟨p, hrun⟩ := haccepts ⟨⟨.succeeded, hread⟩, by decide, by decide⟩
  obtain ⟨⟨htells, ⟨status, hstatus, hfield, harchived⟩, -⟩, -⟩ := hanswers p hrun
  cases hstatus.symm.trans hread
  cases (show Dict.field _ "start_time" = some (.str midnight.iso) from rfl).symm.trans htext
  cases hbegun.symm.trans (Moment.read_iso rfl (by decide))
  rw [htaken] at htells
  have hspan : wholeSeconds midnight ⟨midnight.micros + 90 * second, some 0⟩ = 90 := by
    decide +kernel
  have hduration := htells.duration
  rw [show lastEnd _ = some ⟨midnight.micros + 90 * second, some 0⟩ from rfl, Option.elim_some,
    hspan] at hduration
  exact ⟨isJson_nightlyRequest, _, _, s, p, congrArg BuildRun.result hstart, rfl,
    congrArg BuildRun.store hstart, hmoment, hjson, hjson', hrun, hfield, hduration, htells.logsUrl,
    htells.errorMessage, harchived.2 ⟨rfl, rfl⟩⟩

end BuildPipeline
