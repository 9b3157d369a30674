import BuildPipeline.Proofs.AuditTrail

/-!
Reports on a build and its record. A report changes the fields that it tells something about, so
after any number of reports the record has the last end, address of logs and error that they gave.
-/

namespace BuildPipeline

open BuildPipeline.Time

/-- A value, unless it counts as false. -/
def Value.given (v : Value) : Option Value := if v.truthy then some v else none

/-- The last end of a build that was reported. -/
def lastEnd (us : List StatusReport) : Option Moment := (us.filterMap (·.endTime)).getLast?

/-- The last value of its kind that was reported, if there is one. -/
def lastGiven (field : StatusReport → Value) (us : List StatusReport) : Option Value :=
  (us.filterMap fun u => (field u).given).getLast?

section Last

variable {us : List StatusReport} {u : StatusReport}

theorem getLast?_filterMap_concat {α β : Type} (f : α → Option β) (xs : List α) (x : α) :
    ((xs ++ [x]).filterMap f).getLast? = (f x).or (xs.filterMap f).getLast? := by
  rw [List.filterMap_append, List.getLast?_append]
  cases h : f x <;> simp [h]

theorem lastEnd_concat : lastEnd (us ++ [u]) = u.endTime.or (lastEnd us) :=
  getLast?_filterMap_concat _ us u

theorem lastGiven_concat (field : StatusReport → Value) :
    lastGiven field (us ++ [u]) = (field u).given.or (lastGiven field us) :=
  getLast?_filterMap_concat _ us u

end Last

namespace StatusReport

variable {r : StatusReport} {status : BuildStatus} {begun : Moment} {d : Dict} {name text : String}

/-- What a report on a build that began at some moment puts into a field of its record. -/
def told (r : StatusReport) (status : BuildStatus) (begun : Moment) : String → Option Value
  | "status" => some (.str status.name)
  | "end_time" => r.endTime.map fun t => .str t.iso
  | "duration_seconds" => r.endTime.map fun t => .int (wholeSeconds begun t)
  | "logs_url" => r.logsUrl.given
  | "error_message" => r.errorMessage.given
  | _ => none

theorem told_of_notMem (h : name ∉ progressFields) : r.told status begun name = none := by
  simp only [progressFields, List.mem_cons, List.not_mem_nil, or_false, not_or] at h
  rw [told.eq_def]
  split <;> simp_all

theorem field_put (d : Dict) (name : String) (v : Value) (other : String) :
    Dict.field (Dict.set d name v) other = if other = name then some v else Dict.field d other := by
  rw [Dict.field_set]
  simp only [eq_comm]

theorem field_setIf (name : String) (v : Value) (d : Dict) (other : String) :
    Dict.field (setIf name v d) other
      = if other = name then v.given.or (Dict.field d other) else Dict.field d other := by
  rw [setIf, Value.given]
  split
  · rw [field_put]
    rfl
  · exact (ite_self _).symm

theorem setEnd_eq (h : Dict.field d "start_time" = some (.str text))
    (hread : Moment.read text = .ok begun) (t : Moment) :
    setEnd t d = .ok (Dict.set (Dict.set d "end_time" (.str t.iso)) "duration_seconds"
      (.int (wholeSeconds begun t))) := by
  have hstart : Dict.fieldD (Dict.set d "end_time" (.str t.iso)) "start_time" = .str text := by
    rw [Dict.fieldD, Dict.field_set, if_neg (by decide), h]
    rfl
  rw [setEnd, hstart]
  split
  · rename_i heq
    cases heq
    cases hread
  · rename_i heq
    cases heq
    rw [hread]
    rfl
  · rename_i hother
    exact absurd rfl (hother text)

/-- The end of a build that began at some moment, if a report gives one. -/
def ended (r : StatusReport) (begun : Moment) (d : Dict) : Dict :=
  match r.endTime with
  | none => d
  | some t => Dict.set (Dict.set d "end_time" (.str t.iso)) "duration_seconds"
    (.int (wholeSeconds begun t))

/-- The record of a build that began at some moment with what a report tells. -/
def recorded (r : StatusReport) (status : BuildStatus) (begun : Moment) (d : Dict) : Dict :=
  setIf "error_message" r.errorMessage
    (setIf "logs_url" r.logsUrl (r.ended begun (Dict.set d "status" (.str status.name))))

theorem apply_eq (h : Dict.field d "start_time" = some (.str text))
    (hread : Moment.read text = .ok begun) (r : StatusReport) (status : BuildStatus) :
    r.apply status d = .ok (r.recorded status begun d) := by
  have hstart : Dict.field (Dict.set d "status" (.str status.name)) "start_time"
      = some (.str text) := by
    rw [Dict.field_set, if_neg (by decide), h]
  rw [apply, recorded, ended]
  cases r.endTime with
  | none => rfl
  | some t =>
    dsimp only
    rw [setEnd_eq hstart hread]
    rfl

/-- A report changes the fields that it tells something about. -/
theorem field_recorded (r : StatusReport) (status : BuildStatus) (begun : Moment) (d : Dict)
    (name : String) : Dict.field (r.recorded status begun d) name
      = (r.told status begun name).or (Dict.field d name) := by
  rw [recorded, ended]
  cases ht : r.endTime with
  | none =>
    dsimp only
    rw [told.eq_def]
    split <;> simp_all [field_setIf, field_put]
  | some t =>
    dsimp only
    rw [told.eq_def]
    split <;> simp_all [field_setIf, field_put]

theorem over_setIf {Q : Value → Prop} (h : d.Over Q) (name : String) (hv : Q v) :
    (setIf name v d).Over Q := by
  rw [setIf]
  split
  · exact h.set name hv
  · exact h

theorem over_recorded {Q : Value → Prop} (status : BuildStatus) (begun : Moment) (h : d.Over Q)
    (htext : ∀ t : String, Q (.str t)) (hspan : ∀ s t, Q (.int (wholeSeconds s t)))
    (hlogs : Q r.logsUrl) (herror : Q r.errorMessage) : (r.recorded status begun d).Over Q := by
  have hstatus := h.set "status" (htext status.name)
  refine over_setIf (over_setIf ?_ _ hlogs) _ herror
  rw [ended]
  split
  · exact hstatus
  · exact (hstatus.set _ (htext _)).set _ (hspan begun _)

theorem advance_eq (h : Dict.field d "start_time" = some (.str text))
    (hread : Moment.read text = .ok begun) (hstatus : BuildStatus.read r.status = .ok status)
    (id : String) (archiver : Option Archiver) : r.advance id archiver (some (.dict d))
      = .ok (archive archiver status (r.recorded status begun d)) := by
  rw [advance, hstatus]
  change (do
    let record ← (r.apply status d).mapError Failure.time
    return archive archiver status record) = _
  rw [apply_eq h hread]
  rfl

theorem advance_of_unread {e : ShapeError} (h : BuildStatus.read r.status = .error e) (id : String)
    (archiver : Option Archiver) (v : Value) :
    r.advance id archiver (some v) = .error (.shape e) := by
  rw [advance, h]
  rfl

theorem over_archive {Q : Value → Prop} (h : d.Over Q) (htext : ∀ t : String, Q (.str t))
    (archiver : Option Archiver) (status : BuildStatus) :
    (archive archiver status d).record.Over Q := by
  rw [archive.eq_def]
  split
  · exact h
  · split
    · split
      · exact h
      · exact h.set _ (htext _)
    · exact h

/-- A report of values that JSON has. -/
structure IsJson (r : StatusReport) : Prop where
  logsUrl : r.logsUrl.IsJson
  errorMessage : r.errorMessage.IsJson

theorem isJson_concat {us : List StatusReport} (hus : ∀ u ∈ us, u.IsJson) (hr : r.IsJson) :
    ∀ u ∈ us ++ [r], u.IsJson :=
  List.forall_mem_append.2 ⟨hus, List.forall_mem_singleton.2 hr⟩

/-- A report of a status that can be read, with values that are short enough for JSON. -/
structure Proper (r : StatusReport) : Prop where
  status : ∃ status, BuildStatus.read r.status = .ok status
  logsUrl : r.logsUrl.Short
  errorMessage : r.errorMessage.Short

end StatusReport

/-- A record of a build tells what some reports said: the last end with the time up to it, and the
last address and error that were given. In everything else it is as another record. -/
structure Dict.Tells (d record : Dict) (begun : Moment) (us : List StatusReport) : Prop where
  startTime : ∃ text, Dict.field d "start_time" = some (.str text) ∧ Moment.read text = .ok begun
  endTime : Dict.field d "end_time" = some ((lastEnd us).elim .null fun t => .str t.iso)
  duration : Dict.field d "duration_seconds"
    = some ((lastEnd us).elim .null fun t => .int (wholeSeconds begun t))
  logsUrl : d.Holds "logs_url" ((lastGiven (·.logsUrl) us).getD .null)
  errorMessage : d.Holds "error_message" ((lastGiven (·.errorMessage) us).getD .null)
  others : ∀ name, name ∉ progressFields →
    Option.Rel Value.Reordered (Dict.field d name) (Dict.field record name)

namespace Dict

variable {d d' record : Dict} {begun : Moment} {us : List StatusReport} {r : StatusReport}
  {name : String} {v w : Value} {status : BuildStatus}

theorem Holds.given (h : d.Holds name v) (hw : w.IsJson)
    (hfield : Dict.field d' name = w.given.or (Dict.field d name)) :
    d'.Holds name (w.given.getD v) := by
  rw [Value.given] at hfield ⊢
  split at hfield
  · rename_i htruthy
    rw [if_pos htruthy]
    exact ⟨w, hfield, (hw.reordered_iff hw).2 rfl⟩
  · rename_i hfalse
    obtain ⟨v', hv', hreordered⟩ := h
    rw [if_neg hfalse]
    exact ⟨v', hfield.trans hv', hreordered⟩

theorem Holds.inKeyOrder (h : d.Holds name v) (hd : d.Over Value.IsJson) (hv : v.IsJson) :
    d.inKeyOrder.Holds name v := by
  obtain ⟨w, hw, hreordered⟩ := h
  have hwj := hd.field hw
  refine ⟨w.sorted, ?_, ?_⟩
  · rw [field_inKeyOrder hd, hw]
    rfl
  · rw [hwj.sorted.reordered_iff hv, hwj.sorted_sorted]
    exact (hwj.reordered_iff hv).1 hreordered

namespace Tells

/-- One more report is told. -/
theorem recorded (h : d.Tells record begun us) (hr : r.IsJson) (status : BuildStatus) :
    (r.recorded status begun d).Tells record begun (us ++ [r]) where
  startTime := by
    obtain ⟨text, htext, hread⟩ := h.startTime
    exact ⟨text, (StatusReport.field_recorded r status begun d "start_time").trans htext, hread⟩
  endTime := by
    rw [StatusReport.field_recorded, h.endTime, lastEnd_concat]
    cases ht : r.endTime <;> simp [StatusReport.told, ht]
  duration := by
    rw [StatusReport.field_recorded, h.duration, lastEnd_concat]
    cases ht : r.endTime <;> simp [StatusReport.told, ht]
  logsUrl := by
    rw [lastGiven_concat, Option.getD_or]
    exact h.logsUrl.given hr.logsUrl (StatusReport.field_recorded r status begun d "logs_url")
  errorMessage := by
    rw [lastGiven_concat, Option.getD_or]
    exact h.errorMessage.given hr.errorMessage
      (StatusReport.field_recorded r status begun d "error_message")
  others name hname := by
    rw [StatusReport.field_recorded, StatusReport.told_of_notMem hname]
    exact h.others name hname

/-- So it is whether an archiver failed or not. -/
theorem archiveError (h : d.Tells record begun us) (v : Value) :
    (Dict.set d "archive_error" v).Tells record begun us where
  startTime := by simpa [Dict.field_set] using h.startTime
  endTime := by simpa [Dict.field_set] using h.endTime
  duration := by simpa [Dict.field_set] using h.duration
  logsUrl := by simpa [Dict.field_set, Holds] using h.logsUrl
  errorMessage := by simpa [Dict.field_set, Holds] using h.errorMessage
  others name hname := by
    rw [Dict.field_set, if_neg (ne_of_mem_of_not_mem (by decide) hname)]
    exact h.others name hname

theorem isJson_lastGiven {field : StatusReport → Value} (h : ∀ u ∈ us, (field u).IsJson) :
    ((lastGiven field us).getD .null).IsJson := by
  cases hv : lastGiven field us with
  | none => exact admits_isJson.null
  | some v =>
    obtain ⟨u, hu, hgiven⟩ := List.mem_filterMap.1 (List.mem_of_getLast? hv)
    obtain rfl : field u = v := by
      rw [Value.given] at hgiven
      split at hgiven
      · exact Option.some.inj hgiven
      · cases hgiven
    exact h u hu

/-- The order of its keys is all that a record loses in a file. -/
theorem inKeyOrder (h : d.Tells record begun us) (hd : d.Over Value.IsJson)
    (hrecord : record.Over Value.IsJson) (hus : ∀ u ∈ us, u.IsJson) :
    d.inKeyOrder.Tells record begun us where
  startTime := by
    obtain ⟨text, htext, hread⟩ := h.startTime
    exact ⟨text, by rw [field_inKeyOrder hd, htext]; rfl, hread⟩
  endTime := by
    rw [field_inKeyOrder hd, h.endTime]
    cases lastEnd us <;> rfl
  duration := by
    rw [field_inKeyOrder hd, h.duration]
    cases lastEnd us <;> rfl
  logsUrl := h.logsUrl.inKeyOrder hd (isJson_lastGiven fun u hu => (hus u hu).logsUrl)
  errorMessage :=
    h.errorMessage.inKeyOrder hd (isJson_lastGiven fun u hu => (hus u hu).errorMessage)
  others name hname := by
    have hother := h.others name hname
    rw [field_inKeyOrder hd]
    cases hv : Dict.field d name with
    | none =>
      rw [hv] at hother
      exact hother
    | some v =>
      rw [hv] at hother
      cases hw : Dict.field record name with
      | none =>
        rw [hw] at hother
        cases hother
      | some w =>
        rw [hw] at hother
        cases hother with
        | some hreordered =>
          have hvj := hd.field hv
          have hwj := hrecord.field hw
          refine .some ((hvj.sorted.reordered_iff hwj).2 ?_)
          rw [hvj.sorted_sorted]
          exact (hvj.reordered_iff hwj).1 hreordered

end Tells

end Dict

end BuildPipeline
