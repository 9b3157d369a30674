import BuildPipeline.Build.Start
import BuildPipeline.Proofs.Fingerprints
import BuildPipeline.Proofs.NormalForms
import BuildPipeline.Proofs.StoreUpdates

/-!
What a request for a build leads to. The trigger is called once the request is known to be sound,
and nothing but the trigger itself can then stand in the way of an outcome.
-/

namespace BuildPipeline

open BuildPipeline.Time

section Shapes

variable {v w : Value} {vs : List Value} {d d' : Dict} {i : Nat}

theorem isJson_elements (hv : v.IsJson) (h : v.elements = .ok vs) : ∀ w ∈ vs, w.IsJson := by
  cases hv with
  | scalar s hs =>
    cases s with
    | str s =>
      cases h
      exact List.forall_mem_map.2 fun c _ => admits_isJson.text _
    | bytes bs => exact hs.elim
    | _ => cases h
  | list vs hvs =>
    cases h
    exact hvs
  | table t ht hvs =>
    cases h
    rw [List.map_map]
    exact List.forall_mem_map.2 fun e _ => admits_isJson.text e.1

theorem isJson_pairsFrom (hvs : ∀ w ∈ vs, w.IsJson) (hd : ∀ e ∈ d, e.2.IsJson)
    (h : Value.pairsFrom i d vs = .ok d') : ∀ e ∈ d', e.2.IsJson := by
  induction vs generalizing i d with
  | nil =>
    cases h
    exact hd
  | cons v vs ih =>
    obtain ⟨hv, hvs⟩ := List.forall_mem_cons.1 hvs
    rw [Value.pairsFrom.eq_def] at h
    dsimp only at h
    split at h
    · cases h
    · rename_i k w hpair
      obtain ⟨key, -, h⟩ := bind_eq_ok.1 h
      refine ih hvs (fun e he => ?_) h
      rcases Table.mem_insert_values he with he | rfl
      · exact hd e he
      · exact isJson_elements hv hpair e.2 (by simp)
    · cases h

theorem isJson_toDict (hv : v.IsJson) (h : v.toDict = .ok d) : ∀ e ∈ d, e.2.IsJson := by
  rw [Value.toDict.eq_def] at h
  split at h
  · cases h
    obtain ⟨t, rfl, -, ht⟩ := over_of_isJson hv
    exact List.forall_mem_map.2 ht
  · obtain ⟨vs, hvs, h⟩ := bind_eq_ok.1 h
    exact isJson_pairsFrom (isJson_elements hv hvs) (by simp) h

theorem isJson_get {o : Option Value} {name : String} (hv : v.IsJson) (h : v.get name = .ok o) :
    ∀ w ∈ o, w.IsJson := by
  cases v with
  | dict es =>
    cases h
    exact fun w hw => admits_isJson.field es name w hv hw
  | _ => cases h

end Shapes

namespace Definition

variable {v : Value} {d : Definition}

theorem showsReports_readReports {reports : Table String Dict} (hv : v.IsJson)
    (h : readReports v = .ok reports) : BuildSpec.ShowsReports Value.IsJson reports := by
  have hjson : (v.orElse (.dict [])).IsJson := by
    rw [Value.orElse]
    split
    · exact hv
    · exact admits_isJson.dict _ Dict.over_nil
  obtain ⟨es, hes, h⟩ := bind_eq_ok.1 h
  obtain ⟨rs, hrs, h⟩ := bind_eq_ok.1 h
  cases h
  have hes' : (v.orElse (.dict [])).toDict = .ok es := by
    rw [Value.items.eq_def] at hes
    split at hes
    · rename_i heq
      cases hes
      rw [heq]
      rfl
    · cases hes
  intro e he name _ w hw
  obtain ⟨f, hf, hread⟩ := exists_mem_of_forall₂ (mapM_eq_ok.1 hrs)
    ((Table.mem_union he).resolve_left List.not_mem_nil)
  obtain ⟨r, hr, hpure⟩ := bind_eq_ok.1 hread
  cases hpure
  obtain ⟨g, hg, rfl⟩ := Table.mem_of_get? hw
  exact isJson_toDict (isJson_toDict hjson hes' f hf) hr g hg

/-- The document of a definition that JSON gave is one that JSON has. -/
theorem over_document_of_read (hv : v.IsJson) (h : read v = .ok d) :
    d.compile.document.Over Value.IsJson := by
  obtain ⟨-, -, field, hfield, hreports⟩ := tables_of_read h
  have hjson : (field.getD .null).IsJson := by
    cases hf : field with
    | none => exact admits_isJson.null
    | some w => exact isJson_get hv hfield w hf
  exact BuildSpec.over_document admits_isJson (distinct_compile_of_read h)
    (showsReports_readReports hjson hreports)

theorem ofValue_eq_ok : ofValue v = .ok d ↔ read v = .ok d := by
  cases v with
  | dict es => rfl
  | _ => exact iff_of_false nofun nofun

theorem ensureValid_eq_ok : d.ensureValid = .ok () ↔ d.issues = [] := by
  rw [ensureValid, ensureNone]
  cases d.issues <;> simp

end Definition

section Long

variable {v : Value}

theorem isLongAny_eq (vs : List Value) : Value.isLongAny vs = vs.any Value.isLong := by
  induction vs with
  | nil => rfl
  | cons v vs ih => rw [Value.isLongAny, ih, List.any_cons]

theorem isLongIn_of (t : Table String Value) :
    Value.isLongIn (Dict.of t) = t.any fun e => e.2.isLong := by
  induction t with
  | nil => rfl
  | cons e t ih =>
    rw [List.any_cons, ← ih]
    exact congrArg (· || _) (Bool.false_or _)

/-- A number is too long for a text of YAML exactly if it is too long for JSON. -/
theorem isLong_eq_false (hv : v.IsJson) : v.isLong = false ↔ v.Short := by
  induction hv with
  | scalar s hs =>
    cases s with
    | int n =>
      have hlength := Nat.length_toDigits_le_iff (b := 10) (n := n.natAbs) (k := Json.maxDigits)
        (by decide) (by decide)
      rw [Value.isLong, Scalar.isLong, Nat.toString_eq_repr, Nat.toList_repr,
        decide_eq_false_iff_not, Nat.not_lt, hlength]
      simp [Value.Short, Value.wholes]
    | _ => simp [Value.isLong, Scalar.isLong, Value.Short, Value.wholes]
  | list vs hvs ih =>
    rw [Value.isLong, isLongAny_eq, Value.short_list, List.any_eq_false]
    exact forall₂_congr fun v hv => by rw [← ih v hv, Bool.not_eq_true]
  | table t ht hvs ih =>
    rw [Value.short_ofTable, Value.ofTable, ← Dict.of, Value.isLong, isLongIn_of, List.any_eq_false]
    exact forall₂_congr fun e he => by rw [← ih e he, Bool.not_eq_true]

theorem BuildSpec.text_eq_ok {s : BuildSpec} {text : String} :
    s.text = .ok text ↔ (Value.dict s.document).isLong = false ∧ s.render = text := by
  rw [BuildSpec.text]
  cases (Value.dict s.document).isLong <;> simp

/-- A specification that has a text has a fingerprint. -/
theorem exists_fingerprint {s : BuildSpec} {text : String}
    (hs : (Value.dict s.document).IsJson) (h : s.text = .ok text) :
    ∃ hash, fingerprint (.dict s.document) = .ok hash := by
  have hshort := (isLong_eq_false hs).1 (BuildSpec.text_eq_ok.1 h).1
  obtain ⟨canonical, hcanonical⟩ := (Json.exists_write_iff_short (l := .compact) hs).2 hshort
  exact ⟨_, fingerprint_of_canonical hcanonical⟩

end Long

namespace BuildRequest

variable {r : BuildRequest} {d : Definition} {p : PreparedBuild} {now : Moment} {id : String}
  {s : BuildStart} {answer : BuildCall → Except Failure (Option BuildStart)}
  {store : Option Store}

/-- What is known of a request whose trigger is going to be called: its definition, which is valid
if it has to be, and how the call follows from it. -/
structure Prepares (r : BuildRequest) (d : Definition) (p : PreparedBuild) : Prop where
  definition : Definition.read r.definition = .ok d
  valid : r.strict → d.issues = []
  spec : p.spec = d.compile
  text : p.spec.text = .ok p.call.buildspec
  project : projectName r.projectPrefix r.projectId r.userId = .ok p.call.projectName
  env : (r.env.orElse (.dict [])).toDict = .ok p.env
  given : p.call.env = .dict p.env
  warnings : p.warnings = if r.strict then [] else d.issues.map Issue.message

theorem prepares_of_prepare (h : r.prepare = .ok p) : ∃ d, r.Prepares d p := by
  simp only [prepare, bind_eq_ok, mapError_eq_ok] at h
  obtain ⟨d, hd, h⟩ := h
  have hread := Definition.ofValue_eq_ok.1 hd
  cases hstrict : r.strict with
  | false =>
    simp only [hstrict, Bool.false_eq_true, if_false, bind_eq_ok, mapError_eq_ok] at h
    obtain ⟨text, htext, project, hproject, env, henv, h⟩ := h
    cases h
    exact ⟨d, hread, by simp [hstrict], rfl, htext, hproject, henv, rfl, by simp [hstrict]⟩
  | true =>
    simp only [hstrict, if_true, bind_eq_ok, mapError_eq_ok] at h
    obtain ⟨_, hvalid, text, htext, project, hproject, env, henv, h⟩ := h
    cases h
    exact ⟨d, hread, fun _ => Definition.ensureValid_eq_ok.1 hvalid, rfl, htext, hproject, henv,
      rfl, by simp [hstrict]⟩

/-- A definition that cannot be read ends a request. -/
theorem prepare_of_unread {e : ShapeError} (h : Definition.ofValue r.definition = .error e) :
    r.prepare = .error (.shape e) := by
  rw [prepare, h]
  rfl

/-- So do issues that are not wanted. -/
theorem prepare_of_issues (hd : Definition.read r.definition = .ok d) (hstrict : r.strict)
    (h : d.issues ≠ []) :
    r.prepare = .error (.report (.invalid "Pipeline definition" d.issues)) := by
  have hensure : d.ensureValid = .error (.invalid "Pipeline definition" d.issues) := by
    rw [Definition.ensureValid, ensureNone, if_neg (by simpa using h)]
  rw [prepare, Definition.ofValue_eq_ok.2 hd, hstrict]
  simp only [mapError_ok, ok_bind, if_true, hensure]
  rfl

/-- So does a specification that has no text. -/
theorem prepare_of_unwritten {e : Json.WriteError} (hd : Definition.read r.definition = .ok d)
    (hvalid : r.strict → d.issues = []) (h : d.compile.text = .error e) :
    r.prepare = .error (.writing e) := by
  rw [prepare, Definition.ofValue_eq_ok.2 hd]
  cases hstrict : r.strict with
  | false =>
    simp only [mapError_ok, ok_bind, Bool.false_eq_true, if_false, h]
    rfl
  | true =>
    simp only [mapError_ok, ok_bind, if_true, Definition.ensureValid_eq_ok.2 (hvalid hstrict), h]
    rfl

theorem start_of_unprepared {e : Failure} (h : r.prepare = .error e) :
    r.start answer now store = ⟨none, .error e, store⟩ := by
  rw [start, h]

/-- A start depends on the answer to its one call alone. -/
theorem start_congr {answer' : BuildCall → Except Failure (Option BuildStart)}
    (h : ∀ c, (r.start answer now store).call = some c → answer' c = answer c) :
    r.start answer' now store = r.start answer now store := by
  cases hp : r.prepare with
  | error e => rw [start_of_unprepared hp, start_of_unprepared hp]
  | ok p =>
    have hcall : (r.start answer now store).call = some p.call := by
      rw [start, hp]
      dsimp only
      cases r.settle p (answer p.call) now <;> rfl
    rw [start, start, hp]
    dsimp only
    rw [h p.call hcall]

end BuildRequest

/-- The identifier that a trigger gives a build, if it does. -/
def BuildStart.identifier? (started : Option BuildStart) : Option String :=
  (started.bind (·.buildId)).filter (· != "")

theorem requireBuildId_of_identifier {started : Option BuildStart} {id : String}
    (h : BuildStart.identifier? started = some id) (project : String) :
    ∃ s, started = some s ∧ requireBuildId started project = .ok (id, s) := by
  cases started with
  | none => cases h
  | some s =>
    refine ⟨s, rfl, ?_⟩
    rw [requireBuildId, show s.buildId.filter (· != "") = some id from h]

theorem requireBuildId_of_none {started : Option BuildStart}
    (h : BuildStart.identifier? started = none) (project : String) :
    requireBuildId started project = .error (requireBuildId.noIdentifier project) := by
  cases started with
  | none => rfl
  | some s =>
    rw [requireBuildId, show s.buildId.filter (· != "") = none from h]

namespace BuildRequest

variable {r : BuildRequest} {d : Definition} {p : PreparedBuild} {now : Moment} {id : String}
  {s : BuildStart} {answer : BuildCall → Except Failure (Option BuildStart)}
  {store : Option Store} {started : Option BuildStart}

/-- A trigger that names the build leaves nothing that could fail. -/
theorem settle_of_identifier (hp : r.Prepares d p) (hdefinition : r.definition.IsJson)
    (h : BuildStart.identifier? started = some id) (now : Moment) :
    ∃ s hash, started = some s ∧ fingerprint (.dict p.spec.document) = .ok hash
      ∧ r.settle p (.ok started) now = .ok (id, s, r.recordWith p id s now hash) := by
  have hjson : (Value.dict p.spec.document).IsJson := by
    rw [hp.spec]
    exact admits_isJson.dict _ (Definition.over_document_of_read hdefinition hp.definition)
  obtain ⟨hash, hhash⟩ := exists_fingerprint hjson hp.text
  obtain ⟨s, hs, hid⟩ := requireBuildId_of_identifier h p.call.projectName
  refine ⟨s, hash, hs, hhash, ?_⟩
  rw [settle, ok_bind, hid, mapError_ok, ok_bind]
  dsimp only
  rw [record, hhash]
  rfl

theorem settle_of_none (h : BuildStart.identifier? started = none) (p : PreparedBuild)
    (now : Moment) : r.settle p (.ok started) now
      = .error (.report (requireBuildId.noIdentifier p.call.projectName)) := by
  rw [settle, ok_bind, requireBuildId_of_none h]
  rfl

/-- A request of declared types: the parties and the definition are documents that JSON has, and so
are the variables, which are a mapping if there are any. -/
structure IsJson (r : BuildRequest) : Prop where
  userId : r.userId.IsJson
  projectId : r.projectId.IsJson
  pipelineId : r.pipelineId.IsJson
  definition : r.definition.IsJson
  env : r.env = .null ∨ ∃ d, r.env = .dict d ∧ (Value.dict d).IsJson

theorem IsJson.env_of_prepares (hr : r.IsJson) (hp : r.Prepares d p) :
    (Value.dict p.env).IsJson := by
  have henv := hp.env
  rcases hr.env with h | ⟨env, h, hjson⟩
  · rw [h] at henv
    rw [← Except.ok.inj henv]
    exact admits_isJson.dict _ Dict.over_nil
  · have hread : ((Value.dict env).orElse (.dict [])).toDict = .ok env := by cases env <;> rfl
    rw [h, hread] at henv
    rwa [← Except.ok.inj henv]

/-- The variables of a request as its record has them. -/
theorem IsJson.shown_env (hr : r.IsJson) (hp : r.Prepares d p) :
    (if r.env.truthy then r.env else .null) = if p.env.isEmpty then .null else .dict p.env := by
  have henv := hp.env
  rcases hr.env with h | ⟨env, h, -⟩
  · rw [h] at henv ⊢
    rw [← Except.ok.inj henv]
    rfl
  · rw [h] at henv ⊢
    cases env <;> rw [← Except.ok.inj henv] <;> rfl

theorem over_recordWith (hr : r.IsJson) (hp : r.Prepares d p) (id : String) (s : BuildStart)
    (now : Moment) (hash : String) : (r.recordWith p id s now hash).Over Value.IsJson := by
  have hspec : (Value.dict p.spec.document).IsJson := by
    rw [hp.spec]
    exact admits_isJson.dict _ (Definition.over_document_of_read hr.definition hp.definition)
  have henv : (if p.env = [] then .null else .dict p.env : Value).IsJson := by
    split
    · exact admits_isJson.null
    · exact hr.env_of_prepares hp
  refine Dict.over_of (by simp [Table.Distinct]) ?_
  simp [hr.userId, hr.projectId, hr.pipelineId, hspec, henv, admits_isJson.null, admits_isJson.text]

/-- What a request of declared types adds to its specification is short enough for JSON. -/
theorem short_recordWith (hr : r.IsJson) (hp : r.Prepares d p) (huser : r.userId.Short)
    (hproject : r.projectId.Short) (hpipeline : r.pipelineId.Short) (henv : r.env.Short)
    (id : String) (s : BuildStart) (now : Moment) (hash : String) :
    (Value.dict (r.recordWith p id s now hash)).Short := by
  have hspec : (Value.dict p.spec.document).Short := by
    refine (isLong_eq_false ?_).1 (BuildSpec.text_eq_ok.1 hp.text).1
    rw [hp.spec]
    exact admits_isJson.dict _ (Definition.over_document_of_read hr.definition hp.definition)
  have hnull : Value.null.Short := by simp [Value.Short, Value.wholes]
  have htext (t : String) : (Value.str t).Short := by simp [Value.Short, Value.wholes]
  have henv : (if p.env.isEmpty then .null else .dict p.env : Value).Short := by
    rw [← hr.shown_env hp]
    split
    · exact henv
    · exact hnull
  rw [recordWith, Dict.of, ← Value.ofTable, Value.short_ofTable]
  simp only [List.forall_mem_cons]
  exact ⟨htext _, huser, hproject, hpipeline, htext _, htext _, hspec, htext _, henv, htext _,
    hnull, hnull, hnull, hnull, by simp⟩

/-- How a request can go: it is turned down, or the trigger fails or does not name the build, or
there is an outcome. -/
inductive Course (r : BuildRequest) (answer : BuildCall → Except Failure (Option BuildStart))
    (now : Moment) (store : Option Store) : BuildRun → Prop
  | unprepared (e : Failure) (h : r.prepare = .error e) :
    Course r answer now store ⟨none, .error e, store⟩
  | unstarted (d : Definition) (p : PreparedBuild) (e : Failure) (hprepare : r.prepare = .ok p)
    (hp : r.Prepares d p)
    (h : ∀ started, answer p.call = .ok started → BuildStart.identifier? started = none) :
    Course r answer now store ⟨some p.call, .error e, store⟩
  | started (d : Definition) (p : PreparedBuild) (id : String) (s : BuildStart) (hash : String)
    (stored : Option Dict) (failed : List String) (store' : Option Store)
    (hprepare : r.prepare = .ok p) (hp : r.Prepares d p) (h : answer p.call = .ok (some s))
    (hid : BuildStart.identifier? (some s) = some id)
    (hhash : fingerprint (.dict p.spec.document) = .ok hash)
    (hfile : file id (r.recordWith p id s now hash) store = (stored, failed, store')) :
    Course r answer now store ⟨some p.call, .ok {
      buildId := id
      status := (startStatus s).name
      projectName := p.call.projectName
      buildspec := p.call.buildspec
      record := stored
      warnings := p.warnings ++ failed }, store'⟩

/-- Once the build has a name, the rest is up to the store. -/
theorem start_of_identifier (hdefinition : r.definition.IsJson) (hprepare : r.prepare = .ok p)
    (hp : r.Prepares d p) (hanswer : answer p.call = .ok started)
    (hid : BuildStart.identifier? started = some id) (now : Moment) (store : Option Store) :
    ∃ s hash, started = some s ∧ fingerprint (.dict p.spec.document) = .ok hash
      ∧ r.start answer now store =
        let (stored, failed, store) := file id (r.recordWith p id s now hash) store
        ⟨some p.call, .ok {
          buildId := id
          status := (startStatus s).name
          projectName := p.call.projectName
          buildspec := p.call.buildspec
          record := stored
          warnings := p.warnings ++ failed }, store⟩ := by
  obtain ⟨s, hash, hs, hhash, hsettle⟩ := settle_of_identifier hp hdefinition hid now
  refine ⟨s, hash, hs, hhash, ?_⟩
  rw [BuildRequest.start, hprepare]
  dsimp only
  rw [hanswer, hsettle]

theorem course_start (hdefinition : r.definition.IsJson)
    (answer : BuildCall → Except Failure (Option BuildStart)) (now : Moment)
    (store : Option Store) : Course r answer now store (r.start answer now store) := by
  cases hprepare : r.prepare with
  | error e =>
    rw [start_of_unprepared hprepare]
    exact .unprepared e hprepare
  | ok p =>
    obtain ⟨d, hp⟩ := prepares_of_prepare hprepare
    cases hanswer : answer p.call with
    | error e =>
      rw [BuildRequest.start, hprepare]
      dsimp only
      rw [hanswer]
      exact .unstarted d p e hprepare hp (by simp [hanswer])
    | ok started =>
      cases hid : BuildStart.identifier? started with
      | none =>
        rw [BuildRequest.start, hprepare]
        dsimp only
        rw [hanswer, settle_of_none hid]
        exact .unstarted d p _ hprepare hp (by simpa [hanswer] using hid)
      | some id =>
        obtain ⟨s, hash, rfl, hhash, hstart⟩ :=
          start_of_identifier hdefinition hprepare hp hanswer hid now store
        rw [hstart]
        exact .started d p id s hash _ _ _ hprepare hp hanswer hid hhash rfl

/-- A store refuses a record, which leaves one warning, or takes it. -/
theorem file_cases (id : String) (record : Dict) (s : Store) :
    (∃ e, (Store.put buildsCollection id (.dict record)).run s
        = .error e { s with puts := s.puts + 1 }
      ∧ file id record (some s)
        = (none, [s!"Failed to store build record for {id}: {e.message}"],
          some { s with puts := s.puts + 1 }))
    ∨ ∃ b, s.backing.put buildsCollection id (.dict record) = .ok b
      ∧ (Store.put buildsCollection id (.dict record)).run s
        = .ok () { s with puts := s.puts + 1, backing := b }
      ∧ file id record (some s)
        = (some record, [], some { s with puts := s.puts + 1, backing := b }) := by
  rw [file]
  rcases s.put_cases buildsCollection id (.dict record) with ⟨e, hput⟩ | ⟨b, hb, hput⟩
  · exact .inl ⟨e, hput, by rw [hput]⟩
  · exact .inr ⟨b, hb, hput, by rw [hput]⟩

/-- A folder takes a record of declared types under a name that is safe. -/
theorem file_directory (hr : r.IsJson) (hp : r.Prepares d p) (huser : r.userId.Short)
    (hproject : r.projectId.Short) (hpipeline : r.pipelineId.Short) (henv : r.env.Short)
    (m : DirectoryStore) (hid : DirectoryStore.isSafe id) (s : BuildStart) (now : Moment)
    (hash : String) :
    ∃ s', file id (r.recordWith p id s now hash) (some (.ofBacking (.directory m) fun _ => false))
      = (some (r.recordWith p id s now hash), [], some s') := by
  have hjson := admits_isJson.dict _ (over_recordWith hr hp id s now hash)
  have hshort := short_recordWith hr hp huser hproject hpipeline henv id s now hash
  obtain ⟨text, htext⟩ := (Json.exists_write_iff_short (l := .indented) hjson).2 hshort
  have hput := DirectoryStore.put_eq_ok (s := m) (c := buildsCollection).2
    ⟨⟨by decide, hid⟩, text, htext, rfl⟩
  rcases file_cases id (r.recordWith p id s now hash) (.ofBacking (.directory m) fun _ => false)
    with ⟨e, he, -⟩ | ⟨b, -, -, hfile⟩
  · simp [Store.put, Store.ofBacking, Backing.put, hput, Except.map, liftExcept,
      EStateM.run_bind] at he
  · exact ⟨_, hfile⟩

end BuildRequest

/-- A request to build the one block of a definition, whose fallback is missing. -/
def nightlyRequest : BuildRequest where
  userId := .str "ana"
  projectId := .str "web app"
  definition := .ofTable [("blocks", .list [.ofTable [("id", .str "make"),
      ("block_type", .str "custom_build_command"), ("group_type", .str "build"),
      ("custom_command", .str "make"), ("on_failed", .str "notify")]]),
    ("reports", .ofTable [("unit", .ofTable [("files", .str "*.xml"), ("depth", .int 2)])])]
  env := .ofTable [("STAGE", .str "night")]
  strict := false
  pipelineId := .null
  projectPrefix := "ci"

theorem isJson_nightlyRequest : nightlyRequest.IsJson := by
  have hdefinition : Yaml.Portable nightlyRequest.definition := by decide
  have henv : Yaml.Portable (.dict (Dict.of [("STAGE", .str "night")])) := by decide
  exact ⟨admits_isJson.text _, admits_isJson.text _, admits_isJson.null, .of_portable hdefinition,
    .inr ⟨_, rfl, .of_portable henv⟩⟩

/-- A trigger that names every build alike. -/
def naming (id : String) : BuildCall → Except Failure (Option BuildStart) :=
  fun _ => .ok (some ⟨some id, none, none⟩)

/-- The trigger is called for the request, which the store has no say in. -/
theorem start_nightly (id : String) (hid : id ≠ "") (now : Moment) (store : Option Store) :
    ∃ d p hash, nightlyRequest.prepare = .ok p ∧ nightlyRequest.Prepares d p
      ∧ nightlyRequest.start (naming id) now store =
        let (stored, failed, store) :=
          BuildRequest.file id (nightlyRequest.recordWith p id ⟨some id, none, none⟩ now hash) store
        ⟨some p.call, .ok {
          buildId := id
          status := "in_progress"
          projectName := p.call.projectName
          buildspec := p.call.buildspec
          record := stored
          warnings := p.warnings ++ failed }, store⟩ := by
  cases hprepare : nightlyRequest.prepare with
  | error e =>
    have hprepared : nightlyRequest.prepare.toOption.isSome := by decide +kernel
    rw [hprepare] at hprepared
    cases hprepared
  | ok p =>
    obtain ⟨d, hp⟩ := BuildRequest.prepares_of_prepare hprepare
    have hidentifier : BuildStart.identifier? (some ⟨some id, none, none⟩) = some id := by
      simp [BuildStart.identifier?, hid]
    have hanswer : naming id p.call = .ok (some ⟨some id, none, none⟩) := rfl
    obtain ⟨s, hash, hs, -, hstart⟩ := BuildRequest.start_of_identifier
      isJson_nightlyRequest.definition hprepare hp hanswer hidentifier now store
    cases hs
    exact ⟨d, p, hash, rfl, hp, hstart⟩

end BuildPipeline
