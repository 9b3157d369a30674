import BuildPipeline.Proofs.BuildStarts

/-!
A start of a build is atomic around its trigger. What fails leaves the store as it was, and once the
trigger has named the build there is an outcome, whether its record can be stored or not.
-/

namespace BuildPipeline

open BuildPipeline.Time

variable {id : String} {record : Dict} {store store' : Option Store} {stored : Option Dict}
  {failed : List String}

/-- What becomes of the record of a build: there is no store; or the store takes the record and
shows it; or it does not, shows what it did before, and leaves one warning. -/
inductive Recorded (id : String) (record : Dict) :
    Option Store → Option Store → Option Dict → List String → Prop
  | absent : Recorded id record none none none []
  | taken (s s' : Store) (v : Value)
    (hput : (Store.put buildsCollection id (.dict record)).run s = .ok () s')
    (hget : s'.get buildsCollection id = .ok (some v)) (hv : Value.Reordered v (.dict record)) :
    Recorded id record (some s) (some s') (some record) []
  | refused (s s' : Store) (e : StoreError)
    (hput : (Store.put buildsCollection id (.dict record)).run s = .error e s')
    (hkept : s'.backing = s.backing) :
    Recorded id record (some s) (some s') none
      [s!"Failed to store build record for {id}: {e.message}"]

theorem recorded_file (hrecord : (Value.dict record).IsJson)
    (h : BuildRequest.file id record store = (stored, failed, store')) :
    Recorded id record store store' stored failed := by
  cases store with
  | none =>
    cases h
    exact .absent
  | some s =>
    rcases BuildRequest.file_cases id record s with ⟨e, hput, hfile⟩ | ⟨b, hb, hput, hfile⟩
    · cases hfile.symm.trans h
      exact .refused s _ e hput rfl
    · cases hfile.symm.trans h
      obtain ⟨d, hd⟩ := s.backing.kept_dict record
      have hget := Backing.get_put_self hb hrecord
      have hreordered := (s.backing.kept_of_isJson hrecord).2
      rw [hd] at hget hreordered
      exact .taken s _ (.dict d) hput hget hreordered

namespace BuildRequest.Course

variable {r : BuildRequest} {answer : BuildCall → Except Failure (Option BuildStart)}
  {now : Moment} {run : BuildRun} {c : BuildCall} {started : Option BuildStart}

theorem store_of_error {e : Failure} (h : r.Course answer now store run)
    (he : run.result = .error e) : run.store = store := by
  cases h with
  | started => cases he
  | _ => rfl

theorem sound (h : r.Course answer now store run) (hc : run.call = some c) :
    ∃ d, Definition.read r.definition = .ok d ∧ (r.strict → d.issues = [])
      ∧ d.compile.text = .ok c.buildspec := by
  cases h with
  | unprepared => cases hc
  | unstarted d p e hprepare hp =>
    cases hc
    exact ⟨d, hp.definition, hp.valid, hp.spec ▸ hp.text⟩
  | started d p id s hash stored failed store' hprepare hp =>
    cases hc
    exact ⟨d, hp.definition, hp.valid, hp.spec ▸ hp.text⟩

theorem named {out : BuildOutcome} (h : r.Course answer now store run)
    (hout : run.result = .ok out) : ∃ c started, run.call = some c ∧ answer c = .ok started
      ∧ BuildStart.identifier? started = some out.buildId := by
  cases h with
  | started d p id s hash stored failed store' hprepare hp hanswer hid =>
    cases hout
    exact ⟨p.call, some s, rfl, hanswer, hid⟩
  | _ => cases hout

theorem settled {d : Definition} (h : r.Course answer now store run) (hr : r.IsJson)
    (hd : Definition.read r.definition = .ok d) (hc : run.call = some c)
    (hanswer : answer c = .ok started) (hid : BuildStart.identifier? started = some id) :
    ∃ out record failed, run.result = .ok out ∧ out.buildId = id ∧ out.buildspec = c.buildspec
      ∧ Recorded id record store run.store out.record failed
      ∧ out.warnings = (if r.strict then [] else d.issues.map Issue.message) ++ failed := by
  cases h with
  | unprepared => cases hc
  | unstarted d' p e hprepare hp h =>
    cases hc
    cases (h started hanswer).symm.trans hid
  | started d' p id' s hash stored failed store' hprepare hp hanswer' hid' hhash hfile =>
    cases hc
    cases hanswer'.symm.trans hanswer
    cases hid'.symm.trans hid
    cases hp.definition.symm.trans hd
    have hrecord := admits_isJson.dict _ (over_recordWith hr hp id s now hash)
    exact ⟨_, _, failed, rfl, rfl, rfl, recorded_file hrecord hfile,
      congrArg (· ++ failed) hp.warnings⟩

end BuildRequest.Course

/-- A store in memory that takes everything, or nothing. -/
def shelf (closed : Bool) : Store := .ofBacking (.memory .empty) fun _ => closed

end BuildPipeline
