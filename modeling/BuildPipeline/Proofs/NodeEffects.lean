import BuildPipeline.Proofs.Handover
import BuildPipeline.Proofs.Strictness

/-! Effects of nodes.  A step at a node that fails hands on what it was handed; one that succeeds
writes what nodes of its kind hand on, or warns of the node, and nothing else. -/

namespace BuildPipeline

/-- What the log and the warnings say of a node that the engine cannot run. -/
def Node.notice? (n : Node) : Option String :=
  match n.type? with
  | some .testJest | some .testMocha | some .testVitest =>
    some s!"Test node not yet implemented: {n.type}"
  | none => some s!"Unknown node type: {n.type}"
  | _ => none

/-- No notice reads like what is said of a node that is not going to run. -/
theorem Node.unreachableMessage_ne {n : Node} {notice : String} (h : n.notice? = some notice)
    (id : String) : unreachableMessage id ≠ notice := by
  intro heq
  have hhead := head?_unreachableMessage id
  rw [heq] at hhead
  rw [notice?.eq_def] at h
  split at h
  case h_1 | h_2 | h_3 | h_4 =>
    cases h
    exact absurd (hhead.symm.trans (head?_toList_append _ _ rfl)) (by decide)
  case h_5 => cases h

/-- A text is no other key than itself. -/
theorem Scalar.str_beq_iff {text : String} {key : Scalar} :
    (Scalar.str text == key) = true ↔ key = .str text := by
  rw [Scalar.beq_iff, eq_comm]
  cases key with
  | float x => cases h : Number.whole? x <;> simp [Scalar.identity, h]
  | moment t => cases h : t.offset.isSome <;> simp [Scalar.identity, h]
  | _ => simp [Scalar.identity]

namespace Context

/-- One more warning at a node, and the others as they were. -/
theorem getD_warned (c : Context) (node message : String) (key : Scalar) :
    Table.getD (c.warned node message).warnings key []
      = Table.getD c.warnings key [] ++ if key = .str node then [.str message] else [] := by
  simp only [warned, Table.modify, Table.getD, Table.get?_insert, Scalar.str_beq_iff]
  by_cases h : key = .str node
  · simp [h]
  · simp [h]

end Context

namespace Services

open Session

variable {x : Services} {n : Node} {s : Session} {r : EStateM.Result Failure Session Unit}

theorem BuildStep.writes (h : x.BuildStep s r) :
    Ends (fun _ s' => ∃ project id,
        projectName x.settings.build.projectPrefix s.context.run.projectId s.context.run.userId
          = .ok project
        ∧ id ≠ "" ∧ Context.Extends { s.context with
          buildId := .str id, artifactLocation := .str (artifactLocation project id) } s'.context)
      (fun s' => s.context.Extends s'.context) r := by
  cases h with
  | malformed e => exact .refl s.context
  | refused e call c hc => exact hc
  | started project id start call c hproject _ _ hid hc =>
    obtain ⟨added, rfl⟩ := hc
    exact ⟨project, id, hproject, hid, added, rfl⟩

theorem DeployStep.writes (h : x.DeployStep n s r) :
    Ends (fun _ s' => ∃ id, id ≠ ""
        ∧ Context.Extends { s.context with deploymentId := .str id } s'.context)
      (fun s' => s.context.Extends s'.context) r := by
  cases h with
  | missing => exact .refl s.context
  | refused e call c _ _ hc => exact hc
  | created id call c _ _ hid hc =>
    obtain ⟨added, rfl⟩ := hc
    exact ⟨id, hid, added, rfl⟩

/-- A node that the engine cannot run is passed over with a warning. -/
theorem dispatch_of_notice {notice : String} (h : n.notice? = some notice) (x : Services)
    (s : Session) :
    (x.dispatch n).run s = .ok () { s with context := s.context.warned n.id notice } := by
  rw [Node.notice?.eq_def] at h
  split at h
  case h_1 ht | h_2 ht | h_3 ht | h_4 ht =>
    cases h
    rw [dispatch, ht]
    rfl
  case h_5 => cases h

/-- No other node leaves a warning. -/
theorem dispatch_of_no_notice (h : n.notice? = none) (x : Services) (s : Session) :
    (stateOf ((x.dispatch n).run s)).context.warnings = s.context.warnings := by
  rw [Node.notice?] at h
  rw [dispatch]
  split
  case h_1 | h_2 | h_3 => rfl
  case h_4 | h_5 | h_6 => exact (x.runBuild_step n s).warnings
  case h_7 => exact (x.runDeploy_step n s).warnings
  case h_8 ht | h_9 ht | h_10 ht | h_11 ht =>
    rw [ht] at h
    cases h

/-- What a step at a node that succeeds makes of a context, by the type of the node: there is a build
and its place, or a deployment, or nothing new but in the log, or just one more warning. -/
def Effect (x : Services) (n : Node) (c c' : Context) : Prop :=
  match n.type? with
  | some .buildWebpack | some .buildVite | some .buildCustom =>
    ∃ project id, projectName x.settings.build.projectPrefix c.run.projectId c.run.userId = .ok project
      ∧ id ≠ "" ∧ Context.Extends
        { c with buildId := .str id, artifactLocation := .str (artifactLocation project id) } c'
  | some .deploy => ∃ id, id ≠ "" ∧ Context.Extends { c with deploymentId := .str id } c'
  | some .start | some .pipelineStart | some .finish => c.Extends c'
  | some .testJest | some .testMocha | some .testVitest | none =>
    ∃ message, n.notice? = some message ∧ c' = c.warned n.id message ∧ c'.snapshot = c.snapshot
      ∧ ∀ key, Table.getD c'.warnings key []
        = Table.getD c.warnings key [] ++ if key = .str n.id then [.str message] else []

/-- A step at a node is all or nothing.  One that fails leaves what is handed on and the warnings as
they were and only adds to the log.  One that succeeds writes a build with its place at a build node,
a deployment at a deploy node and nothing at the ends of a graph, all of them without a warning; at
any other node it leaves one warning, under that node, and writes nothing. -/
theorem dispatch_atomic (x : Services) (n : Node) (s : Session) :
    Ends (fun _ s' => x.Effect n s.context s'.context) (fun s' => s.context.Extends s'.context)
      ((x.dispatch n).run s) := by
  cases ht : n.type? with
  | none =>
    have hn : n.notice? = some s!"Unknown node type: {n.type}" := by rw [Node.notice?, ht]
    rw [dispatch_of_notice hn]
    simp only [Ends, Effect, ht]
    exact ⟨_, hn, rfl, rfl, s.context.getD_warned n.id _⟩
  | some t =>
    cases t with
    | start | pipelineStart | finish =>
      simp only [dispatch, Effect, ht]
      exact (Context.Extends.refl s.context).log _ _ _ _
    | buildWebpack | buildVite | buildCustom =>
      simp only [dispatch, Effect, ht]
      exact (x.runBuild_step n s).writes
    | deploy =>
      simp only [dispatch, Effect, ht]
      exact (x.runDeploy_step n s).writes
    | testJest | testMocha | testVitest =>
      have hn : n.notice? = some s!"Test node not yet implemented: {n.type}" := by
        rw [Node.notice?, ht]
      rw [dispatch_of_notice hn]
      simp only [Ends, Effect, ht]
      exact ⟨_, hn, rfl, rfl, s.context.getD_warned n.id _⟩

/-- A build starts, or a deployment fails for want of one. -/
theorem dispatch_atomic_shipping :
    let s : Session :=
      ⟨.start ⟨.str "0", .str "twice", .str "user", .str "project"⟩ ⟨0, some 0⟩, .empty⟩
    (∃ s', (Executor.shipping.services.dispatch ⟨"a", "build_vite", []⟩).run s = .ok () s'
        ∧ s'.context.buildId ≠ .null ∧ s'.context.deploymentId = .null
        ∧ s'.context.warnings = [])
      ∧ ∃ e s', (Executor.shipping.services.dispatch ⟨"b", "deploy", []⟩).run s = .error e s'
        ∧ s.context.Extends s'.context := by
  intro s
  have hbuild := dispatch_atomic Executor.shipping.services ⟨"a", "build_vite", []⟩ s
  have hdeploy := dispatch_atomic Executor.shipping.services ⟨"b", "deploy", []⟩ s
  obtain ⟨project, id, -, -, added, hc⟩ := hbuild
  exact ⟨⟨_, rfl, by rw [hc]; nofun, by rw [hc]; rfl, by rw [hc]; rfl⟩, _, _, rfl, hdeploy⟩

end Services

end BuildPipeline
