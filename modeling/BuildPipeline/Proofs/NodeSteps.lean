import BuildPipeline.Proofs.SessionLaws

/-! Steps at nodes.  What a step at a node does to a session, for every way in which it may end: what
it hands on, whom it asks, and that all else is as it was but for entries in the log. -/

namespace BuildPipeline

/-- The same context but for more entries in the log. -/
def Context.Extends (c c' : Context) : Prop := ∃ added, c' = c.withEvents (c.events ++ added)

namespace Context.Extends

variable {c c' c'' : Context}

theorem refl (c : Context) : c.Extends c := ⟨[], by simp⟩

theorem trans (h : c.Extends c') (h' : c'.Extends c'') : c.Extends c'' := by
  obtain ⟨added, rfl⟩ := h
  obtain ⟨more, rfl⟩ := h'
  exact ⟨added ++ more, by simp⟩

theorem log (h : c.Extends c') (node level message : Value) (more : Dict) :
    c.Extends (c'.log node level message more) :=
  h.trans ⟨[c'.entry node level message more], rfl⟩

theorem logEvents (h : c.Extends c') (node : String) (events : List RetryEvent) :
    c.Extends (Session.logEvents c' node events) :=
  h.trans ⟨Session.eventEntries c' node events, Session.logEvents_eq c' node events⟩

end Context.Extends

/-- A context of the same run that hands on the same. -/
structure Context.Alike (c c' : Context) : Prop where
  run : c'.run = c.run
  snapshot : c'.snapshot = c.snapshot

theorem Context.Extends.alike {c c' : Context} (h : c.Extends c') : c.Alike c' := by
  obtain ⟨added, rfl⟩ := h
  exact ⟨rfl, rfl⟩

theorem Context.Alike.trans {c c' c'' : Context} (h : c.Alike c') (h' : c'.Alike c'') :
    c.Alike c'' :=
  ⟨h'.run.trans h.run, h'.snapshot.trans h.snapshot⟩

theorem Context.alike_warned (c : Context) (node message : String) :
    c.Alike (c.warned node message) := ⟨rfl, rfl⟩

/-- Whether a node starts a build. -/
def Node.builds (n : Node) : Bool :=
  match n.type? with
  | some .buildWebpack | some .buildVite | some .buildCustom => true
  | _ => false

/-- Whether a node deploys a build. -/
def Node.deploys (n : Node) : Bool := n.type? == some .deploy

theorem Node.builds_of_deploys {n : Node} (h : n.deploys = true) : n.builds = false := by
  rw [Node.builds, show n.type? = some .deploy from eq_of_beq h]

namespace Session

variable {α β : Type}

theorem get_bind_run (k : Session → SessionStep β) (s : Session) : (get >>= k).run s = (k s).run s :=
  rfl

theorem liftExcept_bind_run (r : Except Failure α) (k : α → SessionStep β) (s : Session) :
    (liftExcept r >>= k).run s = match r with
      | .ok a => (k a).run s
      | .error e => .error e s := by
  cases r <;> rfl

theorem log_bind_run (node level message : String) (more : Table String Value)
    (k : Unit → SessionStep β) (s : Session) :
    (Session.log node level message more >>= k).run s = (k ()).run
      { s with context := s.context.log (.str node) (.str level) (.str message) (Dict.of more) } :=
  rfl

/-- A session in which a trial is over. -/
def settled (s : Session) (node : String) (t : Trial α) (call : Except Failure α → Call) : Session :=
  ⟨logEvents s.context node t.events, s.journal.enter t call⟩

theorem settle_bind_run (node : String) (t : Trial α) (call : Except Failure α → Call)
    (k : α → SessionStep β) (s : Session) :
    (settle node t call >>= k).run s = match t.result with
      | .ok a => (k a).run (s.settled node t call)
      | .error e => .error e (s.settled node t call) := by
  simp only [settle, bind_assoc, EStateM.run_bind, EStateM.run_modify]
  cases t.result <;> rfl

end Session

namespace Services

open Session

variable {x : Services} {n : Node} {s : Session}

/-- What comes of asking the build trigger in a session. -/
def buildTrial (x : Services) (s : Session) (call : BuildCall) : Trial (Option BuildStart) :=
  x.buildTrigger.ask x.retry x.random s.journal.draws s.journal.buildCalls call

/-- What comes of asking the deploy trigger in a session. -/
def deployTrial (x : Services) (s : Session) (call : DeployCall) : Trial (Option Deployment) :=
  x.deployTrigger.ask x.retry x.random s.journal.draws s.journal.deployCalls call

theorem requireBuildId_eq_ok {started : Option BuildStart} {project id : String}
    {start : BuildStart} (h : requireBuildId started project = .ok (id, start)) :
    started = some start ∧ start.buildId = some id ∧ id ≠ "" := by
  rw [requireBuildId.eq_def] at h
  split at h
  case h_1 start' =>
    split at h
    case h_1 id' hid =>
      cases h
      exact ⟨rfl, by simpa [Option.filter_eq_some_iff] using hid⟩
    case h_2 => cases h
  case h_2 => cases h

theorem requireDeploymentId_eq_ok {created : Option Deployment} {build : Value} {id : String}
    (h : requireDeploymentId created build = .ok id) : id ≠ "" := by
  rw [requireDeploymentId.eq_def] at h
  split at h
  case h_1 id' hid =>
    cases h
    simpa using (Option.filter_eq_some_iff.1 hid).2
  case h_2 => cases h

theorem startBuild_eq (x : Services) (node : String) (call : BuildCall) : x.startBuild node call
    = get >>= fun s => settle node (x.buildTrial s call) (.build call) := rfl

theorem deploy_eq (x : Services) (node : String) (call : DeployCall) : x.deploy node call
    = get >>= fun s => settle node (x.deployTrial s call) (.deploy call) := rfl

/-- The ways in which a step at a build node may end: it fails before it asks the trigger, it fails
after that, or the trigger has named a build. -/
inductive BuildStep (x : Services) (s : Session) : EStateM.Result Failure Session Unit → Prop
  | malformed (e : Failure) : BuildStep x s (.error e s)
  | refused (e : Failure) (call : BuildCall) (c : Context) : s.context.Extends c →
      BuildStep x s (.error e ⟨c, s.journal.enter (x.buildTrial s call) (.build call)⟩)
  | started (project id : String) (start : BuildStart) (call : BuildCall) (c : Context) :
      projectName x.settings.build.projectPrefix s.context.run.projectId s.context.run.userId
        = .ok project →
      (x.buildTrial s call).result = .ok (some start) → start.buildId = some id → id ≠ "" →
      s.context.Extends c →
      BuildStep x s (.ok () ⟨{ c with
        buildId := .str id, artifactLocation := .str (artifactLocation project id) },
        s.journal.enter (x.buildTrial s call) (.build call)⟩)

theorem runBuild_step (x : Services) (n : Node) (s : Session) :
    x.BuildStep s ((x.runBuild n).run s) := by
  rw [runBuild, get_bind_run, liftExcept_bind_run]
  split
  case h_2 e _ => exact .malformed e
  case h_1 spec _ =>
  rw [liftExcept_bind_run]
  split
  case h_2 e _ => exact .malformed e
  case h_1 project hproject =>
  rw [liftExcept_bind_run]
  split
  case h_2 e _ => exact .malformed e
  case h_1 env _ =>
  rw [log_bind_run, startBuild_eq, bind_assoc, get_bind_run, settle_bind_run]
  have hlog := (Context.Extends.refl s.context).log (.str n.id) (.str "info")
    (.str "Executing build node") (Dict.of [("node_type", .str n.type)])
  split
  case h_2 e _ => exact .refused e _ _ (hlog.logEvents n.id _)
  case h_1 started hstarted =>
  rw [liftExcept_bind_run]
  split
  case h_2 e _ => exact .refused e _ _ (hlog.logEvents n.id _)
  case h_1 r hrequired =>
  obtain ⟨id, start⟩ := r
  obtain ⟨rfl, hid, hne⟩ := requireBuildId_eq_ok (mapError_eq_ok.1 hrequired)
  exact .started project id start _ _ (mapError_eq_ok.1 hproject) hstarted hid hne
    ((hlog.logEvents n.id _).log _ _ _ _)

/-- The ways in which a step at a deploy node may end: it does not find a build, it fails after it
has asked the trigger, or the trigger has named a deployment. -/
inductive DeployStep (x : Services) (n : Node) (s : Session) :
    EStateM.Result Failure Session Unit → Prop
  | missing : s.context.buildId.truthy = false →
      DeployStep x n s (.error (.report (.missingBuildId (.str n.id))) s)
  | refused (e : Failure) (call : DeployCall) (c : Context) :
      s.context.buildId.truthy = true → call.buildId = s.context.buildId → s.context.Extends c →
      DeployStep x n s (.error e ⟨c, s.journal.enter (x.deployTrial s call) (.deploy call)⟩)
  | created (id : String) (call : DeployCall) (c : Context) :
      s.context.buildId.truthy = true → call.buildId = s.context.buildId → id ≠ "" →
      s.context.Extends c →
      DeployStep x n s (.ok () ⟨{ c with deploymentId := .str id },
        s.journal.enter (x.deployTrial s call) (.deploy call)⟩)

theorem runDeploy_step (x : Services) (n : Node) (s : Session) :
    x.DeployStep n s ((x.runDeploy n).run s) := by
  rw [runDeploy_eq, get_bind_run]
  split
  case isFalse hbuild => exact .missing (Bool.eq_false_iff.2 hbuild)
  case isTrue hbuild =>
  rw [deployBuild, log_bind_run, deploy_eq, bind_assoc, get_bind_run, settle_bind_run]
  have hlog := (Context.Extends.refl s.context).log (.str n.id) (.str "info")
    (.str "Executing deploy node") (Dict.of [("build_id", s.context.buildId)])
  split
  case h_2 e _ => exact .refused e _ _ hbuild rfl (hlog.logEvents n.id _)
  case h_1 created _ =>
  rw [liftExcept_bind_run]
  split
  case h_2 e _ => exact .refused e _ _ hbuild rfl (hlog.logEvents n.id _)
  case h_1 id hrequired =>
  exact .created id _ _ hbuild rfl (requireDeploymentId_eq_ok (mapError_eq_ok.1 hrequired))
    ((hlog.logEvents n.id _).log _ _ _ _)

/-- The ways in which a step at a node may end, by what the node is for. -/
inductive NodeStep (x : Services) (n : Node) (s : Session) :
    EStateM.Result Failure Session Unit → Prop
  | build {r} : n.builds = true → x.BuildStep s r → NodeStep x n s r
  | deploy {r} : n.deploys = true → x.DeployStep n s r → NodeStep x n s r
  | idle (c : Context) : n.builds = false → n.deploys = false → s.context.Alike c →
      NodeStep x n s (.ok () ⟨c, s.journal⟩)

theorem dispatch_step (x : Services) (n : Node) (s : Session) :
    x.NodeStep n s ((x.dispatch n).run s) := by
  have hlog (node level message more) : s.context.Alike (s.context.log node level message more) :=
    ((Context.Extends.refl _).log node level message more).alike
  rw [dispatch]
  split
  case h_1 ht | h_2 ht | h_3 ht =>
    exact .idle _ (by simp [Node.builds, ht]) (by simp [Node.deploys, ht]) (hlog _ _ _ _)
  case h_4 ht | h_5 ht | h_6 ht =>
    exact .build (by simp [Node.builds, ht]) (x.runBuild_step n s)
  case h_7 ht => exact .deploy (by simp [Node.deploys, ht]) (x.runDeploy_step n s)
  case h_8 ht | h_9 ht | h_10 ht | h_11 ht =>
    rw [warn_run]
    exact .idle _ (by simp [Node.builds, ht]) (by simp [Node.deploys, ht])
      (s.context.alike_warned _ _)

end Services

end BuildPipeline
