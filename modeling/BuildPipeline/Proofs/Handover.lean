import BuildPipeline.Proofs.FailFast
import BuildPipeline.Proofs.NodeSteps
import BuildPipeline.Proofs.TrialLaws

/-! What a run hands on.  Build nodes hand a build on to the deploy nodes after them, under one name
in the context and at one place, and nothing is deployed but the build that was started last. -/

namespace BuildPipeline

namespace Journal

/-- What the trigger answered to a call that started a build. -/
def started? : Call → Option (Option BuildStart)
  | .build _ (.ok started) => some started
  | .build _ (.error _) | .deploy _ _ => none

/-- The build that the last successful call of the build trigger has named. -/
def latestBuild (calls : List Call) : Option String :=
  (calls.filterMap started?).getLast?.bind (·.bind (·.buildId))

/-- Every call of the deploy trigger is about the build that was started last before it. -/
def Backed (calls : List Call) : Prop :=
  ∀ before call answer after, calls = before ++ .deploy call answer :: after →
    ∃ id, latestBuild before = some id ∧ call.buildId = .str id

theorem latestBuild_append {calls more : List Call} (h : ∀ c ∈ more, started? c = none) :
    latestBuild (calls ++ more) = latestBuild calls := by
  rw [latestBuild, List.filterMap_append, List.filterMap_eq_nil_iff.2 h, List.append_nil, latestBuild]

/-- A trial that has started a build, however often it was tried, names the latest one. -/
theorem latestBuild_trial {t : Trial (Option BuildStart)} (ht : t.Conclusive)
    {started : Option BuildStart} (hstarted : t.result = .ok started) (calls : List Call)
    (call : BuildCall) :
    latestBuild (calls ++ t.answers.map (.build call)) = started.bind (·.buildId) := by
  obtain ⟨failures, hanswers⟩ := ht
  simp [hanswers, hstarted, latestBuild, started?]

theorem backed_nil : Backed [] := by
  intro before call answer after h
  cases before <;> cases h

theorem Backed.append {calls more : List Call} (h : Backed calls)
    (hmore : ∀ before call answer after, more = before ++ .deploy call answer :: after →
      ∃ id, latestBuild (calls ++ before) = some id ∧ call.buildId = .str id) :
    Backed (calls ++ more) := by
  intro before call answer after hsplit
  rcases List.append_eq_append_iff.1 hsplit with ⟨middle, rfl, hrest⟩ | ⟨middle, rfl, hrest⟩
  · exact hmore middle call answer after hrest
  · cases middle with
    | nil => simpa using hmore [] call answer after hrest.symm
    | cons d middle =>
      cases hrest
      exact h before call answer middle rfl

/-- Whatever becomes of it, asking for a build is about no other build. -/
theorem Backed.builds {calls : List Call} (h : Backed calls) (call : BuildCall)
    (answers : List (Except Failure (Option BuildStart))) :
    Backed (calls ++ answers.map (.build call)) := by
  refine h.append fun before d answer after hsplit => ?_
  have hd : Call.deploy d answer ∈ answers.map (Call.build call) := by simp [hsplit]
  simp at hd

theorem Backed.deploys {calls : List Call} (h : Backed calls) {id : String}
    (hid : latestBuild calls = some id) {call : DeployCall} (hcall : call.buildId = .str id)
    (answers : List (Except Failure (Option Deployment))) :
    Backed (calls ++ answers.map (.deploy call)) := by
  refine h.append fun before d answer after hsplit => ⟨id, ?_, ?_⟩
  · have hbefore : ∀ c ∈ before, started? c = none := by
      intro c hc
      have hmem : c ∈ answers.map (Call.deploy call) := by simp [hsplit, hc]
      obtain ⟨a, -, rfl⟩ := List.mem_map.1 hmem
      rfl
    rw [latestBuild_append hbefore, hid]
  · have hd : Call.deploy d answer ∈ answers.map (Call.deploy call) := by simp [hsplit]
    obtain ⟨a, -, ha⟩ := List.mem_map.1 hd
    cases ha
    exact hcall

end Journal

/-- What a snapshot hands on is consistent: a build has a name and a place where it leaves its
artifacts or neither, and there is no deployment without a build. -/
structure Handover (lead project user : String) (snapshot : Dict) : Prop where
  together : Dict.fieldD snapshot "build_id" = .null ↔
    Dict.fieldD snapshot "artifact_location" = .null
  located : Dict.fieldD snapshot "build_id" ≠ .null →
    (Dict.fieldD snapshot "build_id").truthy = true ∧
      ∃ id, Dict.fieldD snapshot "build_id" = .str id ∧
        Dict.fieldD snapshot "artifact_location"
          = .str s!"{lead}-{sanitize project}-{user}-artifacts/{id}"
  deployed : Dict.fieldD snapshot "deployment_id" ≠ .null →
    Dict.fieldD snapshot "build_id" ≠ .null

namespace Context

@[simp] theorem fieldD_snapshot_build (c : Context) :
    Dict.fieldD c.snapshot "build_id" = c.buildId := rfl

@[simp] theorem fieldD_snapshot_artifact (c : Context) :
    Dict.fieldD c.snapshot "artifact_location" = c.artifactLocation := rfl

@[simp] theorem fieldD_snapshot_deployment (c : Context) :
    Dict.fieldD c.snapshot "deployment_id" = c.deploymentId := rfl

end Context

section Handover

variable {lead project user : String} {c : Context}

theorem handover_start (run : RunIdentity) (logTime : Time.Moment) :
    Handover lead project user (Context.start run logTime).snapshot := by
  constructor <;> simp [Context.start]

/-- A build that was started is handed on in place of any other. -/
theorem Handover.build {id name : String} (hid : id ≠ "")
    (hname : name = s!"{lead}-{sanitize project}-{user}") :
    Handover lead project user { c with
      buildId := .str id, artifactLocation := .str (artifactLocation name id) }.snapshot where
  together := by simp
  located _ := by
    refine ⟨by simpa [Value.truthy] using hid, id, rfl, ?_⟩
    simp [artifactLocation, hname, toString, String.append_assoc]
  deployed _ := by simp

theorem Handover.deployment (h : Handover lead project user c.snapshot)
    (hbuild : c.buildId.truthy = true) (v : Value) :
    Handover lead project user { c with deploymentId := v }.snapshot where
  together := h.together
  located := h.located
  deployed _ hnull := by
    rw [Context.fieldD_snapshot_build] at hnull
    rw [show c.buildId = .null from hnull] at hbuild
    cases hbuild

end Handover

namespace Session

open Journal

variable {lead project user : String} {earlier : List Call} {s : Session}

/-- What holds of a session of a run, also after it has failed; `earlier` are the calls from before
the run. -/
structure Sound (lead project user : String) (earlier : List Call) (s : Session) : Prop where
  projectId : s.context.run.projectId = .str project
  userId : s.context.run.userId = .str user
  handover : Handover lead project user s.context.snapshot
  backed : ∃ calls, s.journal.calls = earlier ++ calls ∧ Backed calls

/-- What holds as long as no node has failed: the build that is handed on is the last one. -/
structure UnderWay (lead project user : String) (earlier : List Call) (s : Session) : Prop extends
    Sound lead project user earlier s where
  latest : ∀ calls, s.journal.calls = earlier ++ calls →
    s.context.buildId = .ofOption (latestBuild calls)

theorem underWay_start (lead project user : String) (id pipelineId : Value) (logTime : Time.Moment)
    (j : Journal) : UnderWay lead project user j.calls
      ⟨.start ⟨id, pipelineId, .str user, .str project⟩ logTime, j⟩ := by
  refine ⟨⟨rfl, rfl, handover_start _ _, [], by simp, backed_nil⟩, fun calls hcalls => ?_⟩
  obtain rfl := List.self_eq_append_right.1 hcalls
  rfl

theorem Sound.alike (h : s.Sound lead project user earlier) {c : Context} (hc : s.context.Alike c) :
    Sound lead project user earlier ⟨c, s.journal⟩ :=
  ⟨hc.run ▸ h.projectId, hc.run ▸ h.userId, hc.snapshot ▸ h.handover, h.backed⟩

theorem UnderWay.alike (h : s.UnderWay lead project user earlier) {c : Context}
    (hc : s.context.Alike c) : UnderWay lead project user earlier ⟨c, s.journal⟩ where
  toSound := h.toSound.alike hc
  latest calls hcalls :=
    (congrArg (Dict.fieldD · "build_id") hc.snapshot).trans (h.latest calls hcalls)

/-- As long as no node has failed, a build that is handed on is the last one that was started. -/
theorem UnderWay.exists_latest (h : s.UnderWay lead project user earlier)
    (hbuild : s.context.buildId.truthy = true) : ∃ calls id, s.journal.calls = earlier ++ calls
      ∧ Backed calls ∧ latestBuild calls = some id ∧ s.context.buildId = .str id := by
  obtain ⟨calls, hcalls, hbacked⟩ := h.backed
  have hlatest := h.latest calls hcalls
  cases hid : latestBuild calls with
  | none =>
    rw [hlatest, hid] at hbuild
    cases hbuild
  | some id =>
    rw [hid] at hlatest
    exact ⟨calls, id, hcalls, hbacked, hid, hlatest⟩

/-- A session in which a build was asked for. -/
theorem Sound.askedBuild (h : s.Sound lead project user earlier) {c : Context}
    (hc : s.context.Alike c) (t : Trial (Option BuildStart)) (call : BuildCall) :
    Sound lead project user earlier ⟨c, s.journal.enter t (.build call)⟩ := by
  obtain ⟨calls, hcalls, hbacked⟩ := h.backed
  refine { h.alike hc with backed := ⟨_, ?_, hbacked.builds call t.answers⟩ }
  rw [Journal.enter, hcalls, List.append_assoc]

/-- A session in which the build that is handed on was to be deployed. -/
theorem UnderWay.askedDeploy (h : s.UnderWay lead project user earlier)
    (hbuild : s.context.buildId.truthy = true) {c : Context} (hc : s.context.Alike c)
    (t : Trial (Option Deployment)) {call : DeployCall}
    (hcall : call.buildId = s.context.buildId) :
    UnderWay lead project user earlier ⟨c, s.journal.enter t (.deploy call)⟩ := by
  obtain ⟨calls, id, hcalls, hbacked, hid, hname⟩ := h.exists_latest hbuild
  have hall : (s.journal.enter t (.deploy call)).calls
      = earlier ++ (calls ++ t.answers.map (.deploy call)) := by
    rw [Journal.enter, hcalls, List.append_assoc]
  have hnone : ∀ c ∈ t.answers.map (Call.deploy call), started? c = none := by
    intro c hc
    obtain ⟨answer, -, rfl⟩ := List.mem_map.1 hc
    rfl
  refine { h.alike hc with backed := ⟨_, hall, ?_⟩, latest := fun more hmore => ?_ }
  · exact hbacked.deploys hid (hcall.trans hname) t.answers
  · obtain rfl := List.append_cancel_left (hall.symm.trans hmore)
    rw [latestBuild_append hnone]
    exact (h.alike hc).latest calls hcalls

end Session

namespace Services

open Journal Session

variable {x : Services} {project user : String} {earlier : List Call} {s : Session}
  {r : EStateM.Result Failure Session Unit}

theorem BuildStep.ends (h : x.BuildStep s r)
    (hs : s.UnderWay x.settings.build.projectPrefix project user earlier) :
    Ends (fun _ => UnderWay x.settings.build.projectPrefix project user earlier)
      (Sound x.settings.build.projectPrefix project user earlier) r := by
  cases h with
  | malformed e => exact hs.toSound
  | refused e call c hc => exact hs.askedBuild hc.alike _ call
  | started name id start call c hname hresult hid hne hc =>
    have hasked := hs.askedBuild hc.alike (x.buildTrial s call) call
    obtain ⟨calls, hcalls, hbacked⟩ := hs.backed
    rw [hs.projectId, hs.userId] at hname
    have hconclusive : (x.buildTrial s call).Conclusive := Trial.conclusive_ask _ _ _ _ _ _
    exact {
      projectId := hasked.projectId
      userId := hasked.userId
      handover := .build hne (by cases hname; rfl)
      backed := hasked.backed
      latest := fun more hmore => by
        have hcalls' : s.journal.calls ++ (x.buildTrial s call).answers.map (.build call)
          = earlier ++ more := hmore
        rw [hcalls, List.append_assoc] at hcalls'
        rw [← List.append_cancel_left hcalls', latestBuild_trial hconclusive hresult]
        simp [hid, Value.ofOption] }

theorem DeployStep.ends {n : Node} (h : x.DeployStep n s r)
    (hs : s.UnderWay x.settings.build.projectPrefix project user earlier) :
    Ends (fun _ => UnderWay x.settings.build.projectPrefix project user earlier)
      (Sound x.settings.build.projectPrefix project user earlier) r := by
  cases h with
  | missing hbuild => exact hs.toSound
  | refused e call c hbuild hcall hc => exact (hs.askedDeploy hbuild hc.alike _ hcall).toSound
  | created id call c hbuild hcall hne hc =>
    have hasked := hs.askedDeploy hbuild hc.alike (x.deployTrial s call) hcall
    have hsame : c.buildId = s.context.buildId :=
      congrArg (Dict.fieldD · "build_id") hc.alike.snapshot
    exact { hasked with handover := hasked.handover.deployment (hsame ▸ hbuild) _ }

/-- What holds of a session under way is kept by the step at a node. -/
theorem dispatch_ends (x : Services) (n : Node)
    (hs : s.UnderWay x.settings.build.projectPrefix project user earlier) :
    Ends (fun _ => UnderWay x.settings.build.projectPrefix project user earlier)
      (Sound x.settings.build.projectPrefix project user earlier) ((x.dispatch n).run s) := by
  have hstep := x.dispatch_step n s
  generalize (x.dispatch n).run s = r at hstep ⊢
  cases hstep with
  | build _ h => exact h.ends hs
  | deploy _ h => exact h.ends hs
  | idle c _ _ hc => exact hs.alike hc

end Services

namespace Run

open Session

variable {lead project user : String} {earlier : List Call} {filed : List Filing}

/-- What holds of a run at a session of the kind `S`: what was filed since it began is consistent. -/
def Files (lead project user : String) (filed : List Filing) (S : Session → Prop) (r : Run) : Prop :=
  S r.session ∧ ∃ more, r.world.filed = filed ++ more
    ∧ ∀ f ∈ more, Handover lead project user f.document.snapshot

theorem framed_files {S : Session → Prop}
    (hS : ∀ s c, s.context.Extends c → S s → S ⟨c, s.journal⟩)
    (hsnapshot : ∀ s, S s → Handover lead project user s.context.snapshot) :
    Framed (Files lead project user filed S) where
  ticked h := h
  recorded _ h := h
  logged node level message _ _ h := ⟨hS _ _ ((Context.Extends.refl _).log _ _ _ _) h.1, h.2⟩
  persisted := by
    rintro r ⟨hs, hfiled⟩
    obtain ⟨hc, hj, -⟩ := r.persist_session
    have hsince : r.FiledSince filed fun d => Handover lead project user d.snapshot := hfiled
    refine ⟨?_, hsince.persist (hsnapshot _ hs)⟩
    rw [session, hj]
    exact hS r.session _ hc hs

end Run

namespace Services

variable {x : Services}

/-- Nodes that neither build nor deploy succeed, and ask nobody. -/
theorem dispatchAll_idle {nodes : List Node}
    (h : ∀ n ∈ nodes, n.builds = false ∧ n.deploys = false) (s : Session) :
    ∃ c, s.context.Alike c ∧ (x.dispatchAll nodes).run s = .ok () ⟨c, s.journal⟩ := by
  induction nodes generalizing s with
  | nil => exact ⟨s.context, (Context.Extends.refl _).alike, rfl⟩
  | cons n nodes ih =>
    obtain ⟨hbuilds, hdeploys⟩ := h n List.mem_cons_self
    rw [dispatchAll, forM_run_cons]
    have hstep := x.dispatch_step n s
    generalize (x.dispatch n).run s = r at hstep ⊢
    cases hstep with
    | build hn _ => simp [hbuilds] at hn
    | deploy hn _ => simp [hdeploys] at hn
    | idle c _ _ hc =>
      obtain ⟨c', hc', hrun⟩ := ih (fun m hm => h m (List.mem_cons_of_mem n hm)) ⟨c, s.journal⟩
      exact ⟨c', hc.trans hc', hrun⟩

/-- A deploy node before any build node finds no build. -/
theorem breaksAt_missing {before : List Node} {n : Node}
    (h : ∀ m ∈ before, m.builds = false ∧ m.deploys = false) (hn : n.deploys = true) {s : Session}
    (hs : s.context.buildId = .null) : ∃ c,
      x.BreaksAt s before n (.report (.missingBuildId (.str n.id))) ⟨c, s.journal⟩ := by
  obtain ⟨c, hc, hrun⟩ := dispatchAll_idle (x := x) h s
  have hnull : c.buildId = .null := (congrArg (Dict.fieldD · "build_id") hc.snapshot).trans hs
  refine ⟨c, _, hrun, ?_⟩
  have hstep := x.dispatch_step n ⟨c, s.journal⟩
  generalize (x.dispatch n).run ⟨c, s.journal⟩ = r at hstep ⊢
  cases hstep with
  | build hbuild _ => simp [Node.builds_of_deploys hn] at hbuild
  | idle _ _ hdeploy _ => simp [hn] at hdeploy
  | deploy _ hstep =>
    cases hstep with
    | missing _ => rfl
    | refused e call _ hbuild _ _ => simp [hnull, Value.truthy] at hbuild
    | created id call _ hbuild _ _ _ => simp [hnull, Value.truthy] at hbuild

end Services

namespace Executor

open Journal Run Session

theorem openContext_alike (x : Executor) (run : RunIdentity) (p : Plan) :
    ∃ c, x.openContext run p = .ok c ∧ (Context.start run x.logTime).Alike c :=
  x.openContext_spec run p (Context.Extends.refl _).alike
    fun c node message h => h.trans (c.alike_warned node message)

/-- The steps at the nodes of a run that hands on consistently keep it so. -/
theorem carries_files (x : Executor) (project user : String) (earlier : List Call)
    (filed : List Filing) :
    let lead := x.services.settings.build.projectPrefix
    x.Carries (Files lead project user filed (UnderWay lead project user earlier))
      (Files lead project user filed (Sound lead project user earlier)) := by
  intro lead n r h
  have hstep := x.services.dispatch_ends n h.1
  cases hr : (x.services.dispatch n).run r.session with
  | ok u s =>
    rw [hr] at hstep
    exact ⟨hstep, h.2⟩
  | error e s =>
    rw [hr] at hstep
    exact ⟨hstep, h.2⟩

/-- What a run leaves that was handed a plan. -/
theorem execute_handsOn (x : Executor) (id pipelineId user project : String) (p : Plan) (w : World) :
    let lead := x.services.settings.build.projectPrefix
    let o := x.execute ⟨.str id, .str pipelineId, .str user, .str project⟩ id p w
    ∃ calls filed, o.2.journal.calls = w.journal.calls ++ calls ∧ o.2.filed = w.filed ++ filed
      ∧ Backed calls ∧ (∀ f ∈ filed, Handover lead project user f.document.snapshot)
      ∧ ∀ finished, o.1 = .ok finished → Handover lead project user finished.context.snapshot := by
  intro lead
  obtain ⟨context, hopen, halike⟩ := x.openContext_alike
    ⟨.str id, .str pipelineId, .str user, .str project⟩ p
  have hcontext := (underWay_start lead project user _ _ x.logTime w.journal).alike halike
  simp only [execute, hopen, mapError_ok]
  cases x.clock w.ticks with
  | error e => exact ⟨[], [], by simp, by simp, backed_nil, by simp, by simp⟩
  | ok time =>
  dsimp only
  cases Record.create _ (p.order.map fun n => (n.id, n.type)) time x.configHash with
  | error e => exact ⟨[], [], by simp, by simp, backed_nil, by simp, by simp⟩
  | ok record =>
  have hrun := leads_visitAll
    (framed_files (fun _ _ hc h => UnderWay.alike h hc.alike) fun _ h => Sound.handover h.toSound)
    (framed_files (fun _ _ hc h => Sound.alike h hc.alike) fun _ h => Sound.handover h)
    (fun r h => ⟨h.1.toSound, h.2⟩) (x.carries_files project user w.journal.calls w.filed) p.order
    ⟨id, { w with ticks := w.ticks + 1 }, context, record⟩ ⟨hcontext, [], by simp, by simp⟩
  dsimp only
  generalize (x.visitAll p.order).run _ = result at hrun ⊢
  have hend : Files lead project user w.filed (Sound lead project user w.journal.calls)
      (stateOf result) := hrun.stateOf (fun _ _ h => ⟨h.1.toSound, h.2⟩) fun _ h => h
  obtain ⟨hs, filed, hfiled, hall⟩ := hend
  obtain ⟨calls, hcalls, hbacked⟩ := hs.backed
  cases result with
  | ok u r =>
    refine ⟨calls, filed, hcalls, hfiled, hbacked, hall, fun _ hf => ?_⟩
    cases hf
    exact hs.handover
  | error e r =>
    refine ⟨calls, filed, hcalls, hfiled, hbacked, hall, fun _ hf => ?_⟩
    cases hf
    exact hs.handover

theorem exists_first_deploy (done : List Node) {n : Node} (hn : n.deploys = true)
    (rest : List Node) : ∃ before d after, done ++ n :: rest = before ++ d :: after
      ∧ before <+: done ∧ d.deploys = true ∧ ∀ m ∈ before, m.deploys = false := by
  induction done with
  | nil => exact ⟨[], n, rest, rfl, List.nil_prefix, hn, by simp⟩
  | cons m done ih =>
    cases hm : m.deploys with
    | true => exact ⟨[], m, done ++ n :: rest, rfl, List.nil_prefix, hm, by simp⟩
    | false =>
      obtain ⟨before, d, after, hsplit, hbefore, hd, hfirst⟩ := ih
      refine ⟨m :: before, d, after, by rw [List.cons_append, hsplit, List.cons_append],
        List.cons_prefix_cons.2 ⟨rfl, hbefore⟩, hd, ?_⟩
      rintro m' (_ | ⟨_, hm'⟩)
      · exact hm
      · exact hfirst m' hm'

/-- A run whose plan has a deploy node before any build node fails at the first deploy node. -/
theorem execute_missing {x : Executor} (hclock : x.ReadsUtc) {identity : RunIdentity} {p : Plan}
    {w : World} (hids : (p.order.map (·.id)).Nodup) {done rest : List Node} {n : Node}
    (horder : p.order = done ++ n :: rest) (hn : n.deploys = true)
    (hdone : ∀ m ∈ done, m.builds = false) (id : String) :
    ∃ before d after finished w', p.order = before ++ d :: after ∧ before <+: done
      ∧ d.deploys = true ∧ (∀ m ∈ before, m.deploys = false)
      ∧ x.execute identity id p w = (.ok finished, w')
      ∧ finished.outcome = .error (.report (.missingBuildId (.str d.id)))
      ∧ finished.record.Concludes .failed
        (withStatus .success before ++ (d.id, .failed) :: withStatus .pending after)
        (before.flatMap passed ++ broken d)
      ∧ w'.journal = w.journal := by
  obtain ⟨before, d, after, hfound, hbefore, hd, hfirst⟩ := exists_first_deploy done hn rest
  have hsplit : p.order = before ++ d :: after := horder.trans hfound
  have hidle : ∀ m ∈ before, m.builds = false ∧ m.deploys = false := fun m hm =>
    ⟨hdone m (hbefore.subset hm), hfirst m hm⟩
  obtain ⟨context, hopen, halike⟩ := x.openContext_alike identity p
  obtain ⟨c, hbreaks⟩ := Services.breaksAt_missing (x := x.services) hidle hd
    (s := ⟨context, w.journal⟩) (congrArg (Dict.fieldD · "build_id") halike.snapshot)
  have hfail : x.services.FailsReportably ⟨context, w.journal⟩ p.order := by
    rintro mid m e s ⟨later, hlater⟩ hm
    rw [hsplit, List.append_assoc] at hlater
    obtain ⟨-, -, rfl, -⟩ := hm.unique hbreaks hlater
    exact Failure.reportable_ofPayload _ _
  obtain ⟨finished, w', hrun, hend⟩ := execute_run hclock hopen hids hfail id
  rcases hend with ⟨s, hs, -⟩ | ⟨mid, m, later, e, s, hlater, hm, houtcome, hbroken⟩
  · rw [hsplit, hbreaks.dispatchAll after] at hs
    cases hs
  · obtain ⟨rfl, rfl, rfl, rfl⟩ := hm.unique hbreaks (hlater.symm.trans hsplit)
    obtain rfl : later = after := by
      have h := hlater.symm.trans hsplit
      simpa using h
    exact ⟨mid, m, later, finished, w', hsplit, hbefore, hd, hfirst, hrun, houtcome,
      hbroken.record, hbroken.journal⟩

/-- Whatever its pipeline, its order and its triggers are, a run deploys nothing but the build that
was started last in it, and what it hands on is consistent in all that it files and when it is over.
A deploy node that no build node precedes is never deployed: the first such node is where the run
fails for want of a build, without having asked any trigger. -/
theorem run_handsOnBuilds (x : Executor) (pipelineId userId projectId : String) (w : World) :
    let lead := x.services.settings.build.projectPrefix
    let o := x.run pipelineId userId projectId w
    ∃ calls filed, o.2.journal.calls = w.journal.calls ++ calls ∧ o.2.filed = w.filed ++ filed
      ∧ Backed calls
      ∧ (∀ f ∈ filed, Handover lead projectId userId f.document.snapshot)
      ∧ (∀ finished, o.1 = .ok finished → Handover lead projectId userId finished.context.snapshot)
      ∧ ∀ p done n rest, x.ReadsUtc →
          loadGraph w.store pipelineId >>= plan x.services.settings = .ok p →
          p.order = done ++ n :: rest → n.deploys = true → (∀ m ∈ done, m.builds = false) →
          ∃ before d after finished, p.order = before ++ d :: after ∧ before <+: done
            ∧ d.deploys = true ∧ (∀ m ∈ before, m.deploys = false)
            ∧ o.1 = .ok finished
            ∧ finished.outcome = .error (.report (.missingBuildId (.str d.id)))
            ∧ finished.record.Concludes .failed
              (withStatus .success before ++ (d.id, .failed) :: withStatus .pending after)
              (before.flatMap passed ++ broken d)
            ∧ o.2.journal = w.journal := by
  intro lead
  simp only [run]
  cases hp : loadGraph w.store pipelineId >>= plan x.services.settings with
  | error e =>
    refine ⟨[], [], by simp, by simp, backed_nil, by simp, by simp, ?_⟩
    intro p done n rest _ hload
    cases hload
  | ok p =>
    dsimp only
    obtain ⟨calls, filed, hcalls, hfiled, hbacked, hall, hend⟩ := x.execute_handsOn
      (x.executionId w.issued) pipelineId userId projectId p { w with issued := w.issued + 1 }
    refine ⟨calls, filed, hcalls, hfiled, hbacked, hall, hend, ?_⟩
    intro p' done n rest hclock hload horder hn hdone
    cases hload
    obtain ⟨g, -, hplan⟩ := bind_eq_ok.1 hp
    obtain ⟨before, d, after, finished, w', hsplit, hbefore, hd, hfirst, hrun, houtcome, hrecord,
      hjournal⟩ := execute_missing hclock (w := { w with issued := w.issued + 1 })
        (plan_order_nodup hplan) horder hn hdone (x.executionId w.issued)
    exact ⟨before, d, after, finished, hsplit, hbefore, hd, hfirst, by rw [hrun], houtcome, hrecord,
      by rw [hrun, hjournal]⟩

/-- An engine whose triggers number what they start, and whose clock stands still. -/
def shipping : Executor where
  services :=
    { buildTrigger := .ofAnswer fun earlier _ =>
        .ok (some ⟨some s!"build-{earlier.length}", none, none⟩)
      deployTrigger := .ofAnswer fun earlier _ =>
        .ok (some ⟨some s!"deployment-{earlier.length}", none⟩)
      settings := .default
      retry := none
      random := fun _ => 0 }
  configHash := .null
  clock _ := .ok ⟨0, some 0⟩
  executionId n := toString n
  logTime := ⟨0, some 0⟩

/-- A pipeline that deploys before it builds. -/
def hastyStore : Store :=
  let node (id type : String) : Value := .ofTable [("id", .str id), ("type", .str type)]
  let edge (source target : String) : Value :=
    .ofTable [("source", .str source), ("target", .str target)]
  .ofBacking (.memory [(pipelinesCollection, [("hasty", .ofTable [
    ("nodes", .list [node "a" "start", node "b" "deploy", node "c" "build_vite"]),
    ("edges", .list [edge "a" "b", edge "b" "c"])])])]) fun _ => false

/-- The plan of `hastyStore`. -/
def hastyPlan : Plan :=
  let nodes : List Node := [⟨"a", "start", []⟩, ⟨"b", "deploy", []⟩, ⟨"c", "build_vite", []⟩]
  ⟨⟨nodes, [⟨"a->b", "a", "b"⟩, ⟨"b->c", "b", "c"⟩]⟩, [], nodes⟩

theorem run_handsOnBuilds_hasty :
    let o := shipping.run "hasty" "user" "project" (.start hastyStore)
    ∃ finished, o.1 = .ok finished
      ∧ finished.outcome = .error (.report (.missingBuildId (.str "b")))
      ∧ finished.record.status = .ok (.str "failed") ∧ o.2.journal = .empty := by
  obtain ⟨calls, filed, -, -, -, -, -, hmissing⟩ :=
    run_handsOnBuilds shipping "hasty" "user" "project" (.start hastyStore)
  obtain ⟨before, d, after, finished, horder, hbefore, hd, -, hrun, houtcome, hrecord, hjournal⟩ :=
    hmissing hastyPlan [⟨"a", "start", []⟩] ⟨"b", "deploy", []⟩ [⟨"c", "build_vite", []⟩]
      (fun _ => ⟨_, _, rfl, rfl⟩) rfl rfl rfl (by decide)
  have hb : d.id = "b" := by
    rcases List.prefix_cons_iff.1 hbefore with rfl | ⟨t, rfl, ht⟩
    · cases horder
      cases hd
    · obtain rfl := List.prefix_nil.1 ht
      cases horder
      rfl
  exact ⟨finished, hrun, hb ▸ houtcome, hrecord.status, hjournal⟩

/-- Every deployment is one of the build before it. -/
example :
    let order : List Node := [⟨"a", "build_vite", []⟩, ⟨"b", "deploy", []⟩,
      ⟨"c", "build_webpack", []⟩, ⟨"d", "deploy", []⟩]
    let s : Session :=
      ⟨.start ⟨.str "0", .str "twice", .str "user", .str "project"⟩ ⟨0, some 0⟩, .empty⟩
    (stateOf ((shipping.services.dispatchAll order).run s)).journal.deployCalls.map (·.buildId)
      = [.str "build-0", .str "build-1"] := by
  rfl

end Executor

end BuildPipeline
