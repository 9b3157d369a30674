import BuildPipeline.Proofs.Persistence
import BuildPipeline.Proofs.PrunedGraphs

/-! Strictness.  A strict engine and any other differ on graphs with issues alone: the strict one
refuses them before anything else, and the other one says all of them before it visits a node. -/

namespace BuildPipeline

/-- Nothing is pruned from a graph without issues. -/
theorem Graph.prune_of_issues {g : Graph} (h : g.issues = []) : g.prune = g :=
  prune_eq_self_iff.2 (by simp [h])

/-- The node that an issue is said of. -/
def Issue.place (i : Issue) : String := (i.node?.filter (· != "")).getD engineName

namespace Context

/-- The warnings at a node. -/
def warningsAt (warnings : Table Scalar (List Value)) (node : String) : List Value :=
  Table.getD warnings (.str node) []

theorem warningsAt_warned (c : Context) (node message other : String) :
    warningsAt (c.warned node message).warnings other
      = warningsAt c.warnings other ++ if node = other then [.str message] else [] := by
  simp only [warningsAt, warned, Table.modify, Table.getD, Table.get?_insert, Scalar.str_beq,
    decide_eq_true_eq]
  by_cases h : node = other
  · simp [h]
  · simp [h]

/-- More warnings, one after another. -/
def warnedAll (c : Context) (ws : List (String × String)) : Context :=
  ws.foldl (fun c w => c.warned w.1 w.2) c

theorem header_warnedAll (c : Context) (ws : List (String × String)) :
    (c.warnedAll ws).run = c.run ∧ (c.warnedAll ws).logTime = c.logTime := by
  induction ws generalizing c with
  | nil => exact ⟨rfl, rfl⟩
  | cons w ws ih => exact ih (c.warned w.1 w.2)

theorem events_warnedAll (c : Context) (ws : List (String × String)) :
    (c.warnedAll ws).events
      = c.events ++ ws.map fun w => c.entry (.str w.1) (.str "warning") (.str w.2) [] := by
  induction ws generalizing c with
  | nil => simp [warnedAll]
  | cons w ws ih =>
    rw [warnedAll, List.foldl_cons]
    refine (ih (c.warned w.1 w.2)).trans ?_
    simp [warned, entry]

theorem warningsAt_warnedAll (c : Context) (ws : List (String × String)) (node : String) :
    warningsAt (c.warnedAll ws).warnings node
      = warningsAt c.warnings node ++ (ws.filter (·.1 == node)).map fun w => .str w.2 := by
  induction ws generalizing c with
  | nil => simp [warnedAll]
  | cons w ws ih =>
    rw [warnedAll, List.foldl_cons]
    refine (ih (c.warned w.1 w.2)).trans ?_
    rw [warningsAt_warned, List.append_assoc, List.filter_cons]
    by_cases h : w.1 = node <;> simp [h]

end Context

theorem Executor.openContext_eq (x : Executor) (run : RunIdentity) (p : Plan) :
    x.openContext run p = .ok ((Context.start run x.logTime).warnedAll p.warnings) := by
  rw [openContext]
  generalize Context.start run x.logTime = c
  induction p.warnings generalizing c with
  | nil => rfl
  | cons w ws ih => exact ih (c.warned w.1 w.2)

section Said

variable {c : Context} {log : List Dict} {warnings : Table Scalar (List Value)}

/-- A context comes before a log and warnings that only add to its own. -/
structure Context.Precedes (c : Context) (log : List Dict)
    (warnings : Table Scalar (List Value)) : Prop where
  log : c.events <+: log
  warnings : ∀ node, warningsAt c.warnings node <+: warningsAt warnings node

theorem Context.Precedes.refl (c : Context) : c.Precedes c.events c.warnings :=
  ⟨List.prefix_rfl, fun _ => List.prefix_rfl⟩

theorem Context.Precedes.append (h : c.Precedes log warnings) (more : List Dict) :
    c.Precedes (log ++ more) warnings :=
  ⟨h.log.trans (List.prefix_append _ _), h.warnings⟩

/-- A context in which nothing has happened but that issues were said, each where it is and in their
order, and then some other things. -/
structure Context.Announces (c : Context) (issues : List Issue) (others : List (String × String)) :
    Prop where
  log : c.events = (issues.map (fun i => (i.place, i.message)) ++ others).map fun w =>
    c.entry (.str w.1) (.str "warning") (.str w.2) []
  warnings : ∀ node, warningsAt c.warnings node
    = ((issues.filter (·.place == node)).map fun i => .str i.message)
      ++ (others.filter (·.1 == node)).map fun w => .str w.2
  others : ∀ w ∈ others, ∀ i ∈ issues, w.2 ≠ i.message

end Said

namespace Services

open Session

variable {x : Services} {n : Node} {s : Session} {r : EStateM.Result Failure Session Unit}

theorem BuildStep.warnings (h : x.BuildStep s r) :
    (stateOf r).context.warnings = s.context.warnings := by
  cases h with
  | malformed e => rfl
  | refused e call c hc | started _ _ _ call c _ _ _ _ hc =>
    obtain ⟨added, rfl⟩ := hc
    rfl

theorem DeployStep.warnings (h : x.DeployStep n s r) :
    (stateOf r).context.warnings = s.context.warnings := by
  cases h with
  | missing => rfl
  | refused e call c _ _ hc | created _ call c _ _ _ hc =>
    obtain ⟨added, rfl⟩ := hc
    rfl

/-- Only nodes that do nothing yet leave a warning, at themselves. -/
theorem dispatch_warnings (x : Services) (n : Node) (s : Session) :
    (stateOf ((x.dispatch n).run s)).context.warnings = s.context.warnings
      ∨ ∃ message, (stateOf ((x.dispatch n).run s)).context = s.context.warned n.id message := by
  rw [dispatch]
  split
  case h_1 | h_2 | h_3 => exact .inl rfl
  case h_4 | h_5 | h_6 => exact .inl (x.runBuild_step n s).warnings
  case h_7 => exact .inl (x.runDeploy_step n s).warnings
  case h_8 | h_9 | h_10 | h_11 => exact .inr ⟨_, by rw [warn_run]; rfl⟩

/-- A step at a node only adds to the log and to the warnings. -/
theorem dispatch_precedes (x : Services) (n : Node) {c : Context}
    (h : c.Precedes s.context.events s.context.warnings) :
    let c' := (stateOf ((x.dispatch n).run s)).context
    c.Precedes c'.events c'.warnings := by
  intro c'
  obtain ⟨added, -, hrun⟩ := x.appends_dispatch n s
  have hself := hrun s.context.events
  have hevents : c'.events = s.context.events ++ added := by
    rw [withEvents_events] at hself
    have := congrArg (fun r => (stateOf r).context.events) hself
    refine this.trans ?_
    cases (x.dispatch n).run s <;> rfl
  refine ⟨hevents ▸ h.log.trans (List.prefix_append _ _), fun node => ?_⟩
  refine (h.warnings node).trans ?_
  rcases x.dispatch_warnings n s with hsame | ⟨message, hwarned⟩
  · have hwarnings : c'.warnings = s.context.warnings := hsame
    exact hwarnings ▸ List.prefix_rfl
  · rw [show c' = s.context.warned n.id message from hwarned, Context.warningsAt_warned]
    exact List.prefix_append _ _

end Services

section Announced

/-- What is said of a node that is not going to run. -/
def unreachableMessage (id : String) : String :=
  s!"Node {id} is not reachable from any entry node and will not run"

theorem head?_toList_append (s t : String) {c : Char} (h : s.toList.head? = some c) :
    (s ++ t).toList.head? = some c := by
  rw [String.toList_append, List.head?_append, h]
  rfl

theorem getLast?_toList_append (s t : String) {c : Char} (h : t.toList.getLast? = some c) :
    (s ++ t).toList.getLast? = some c := by
  rw [String.toList_append, List.getLast?_append, h]
  rfl

theorem head?_unreachableMessage (id : String) :
    (unreachableMessage id).toList.head? = some 'N' :=
  head?_toList_append _ _ (head?_toList_append _ _ rfl)

theorem getLast?_unreachableMessage (id : String) :
    (unreachableMessage id).toList.getLast? = some 'n' :=
  getLast?_toList_append _ _ rfl

/-- No issue of a graph reads like what is said of a node that is not going to run. -/
theorem Graph.unreachableMessage_ne {g : Graph} {i : Issue} (h : i ∈ g.issues) (id : String) :
    unreachableMessage id ≠ i.message := by
  intro heq
  have hhead := head?_unreachableMessage id
  have hlast := getLast?_unreachableMessage id
  rw [heq] at hhead hlast
  rcases List.mem_append.1 h with hnode | hedge
  · rcases mem_nodeIssuesFrom hnode with ⟨_, rfl⟩ | ⟨_, _, rfl⟩
    · exact absurd (hhead.symm.trans (head?_toList_append _ _ rfl)) (by decide)
    · exact absurd (hlast.symm.trans (getLast?_toList_append _ _ rfl)) (by decide)
  · obtain ⟨e, -, he⟩ := List.mem_flatMap.1 hedge
    obtain ⟨_, rfl, -⟩ := mem_edgeIssues.1 he
    exact absurd (hlast.symm.trans (getLast?_toList_append _ _ rfl)) (by decide)

end Announced

namespace Run

/-- A run before the record was put into the store for the first time. -/
def Opened (c : Context) (filed : List Filing) (r : Run) : Prop :=
  r.context = c ∧ r.world.filed = filed

/-- A run that has put the record into the store: what it was first shows `c` itself, and whatever
came then comes after `c`. -/
def Recalls (c : Context) (filed : List Filing) (r : Run) : Prop :=
  c.Precedes r.context.events r.context.warnings
    ∧ ∃ first : Filing, first.document.log = c.events ∧ first.document.warnings = c.warnings
      ∧ r.FiledSince (filed ++ [first]) fun d => c.Precedes d.log d.warnings

variable {c : Context} {filed : List Filing}

theorem Opened.persist {r : Run} (h : r.Opened c filed) : r.persist.Recalls c filed := by
  obtain ⟨rfl, rfl⟩ := h
  obtain ⟨⟨added, hc⟩, -, hfiled⟩ := r.persist_session
  refine ⟨?_, ⟨executionsCollection, r.id, r.document⟩, rfl, rfl, [], ?_, by simp⟩
  · rw [hc]
    exact (Context.Precedes.refl _).append added
  · rw [hfiled, List.append_nil]

/-- What was filed since a run began starts with `c`, if it is anything at all. -/
def Told (c : Context) (filed : List Filing) (r : Run) : Prop :=
  c.Precedes r.context.events r.context.warnings
    ∧ ∃ more, r.world.filed = filed ++ more
      ∧ (∀ f ∈ more.head?, f.document.log = c.events ∧ f.document.warnings = c.warnings)
      ∧ ∀ f ∈ more, c.Precedes f.document.log f.document.warnings

theorem Opened.told {r : Run} (h : r.Opened c filed) : r.Told c filed := by
  obtain ⟨rfl, hfiled⟩ := h
  exact ⟨.refl _, [], by simp [hfiled], by simp, by simp⟩

theorem Recalls.told {r : Run} (h : r.Recalls c filed) : r.Told c filed := by
  obtain ⟨hc, first, hlog, hwarnings, more, hmore, hall⟩ := h
  refine ⟨hc, first :: more, by simp [hmore], by simp [hlog, hwarnings], fun f hf => ?_⟩
  rcases List.mem_cons.1 hf with rfl | hf
  · rw [hlog, hwarnings]
    exact .refl c
  · exact hall f hf

theorem framed_recalls : Framed (Recalls c filed) where
  ticked h := h
  recorded _ h := h
  logged _ _ _ _ _ h := ⟨h.1.append _, h.2⟩
  persisted := by
    rintro r ⟨hc, first, hlog, hwarnings, hsince⟩
    obtain ⟨⟨added, hadded⟩, -, -⟩ := r.persist_session
    refine ⟨?_, first, hlog, hwarnings, hsince.persist hc⟩
    rw [hadded]
    exact hc.append added

theorem carries_recalls (x : Executor) : x.Carries (Recalls c filed) (Recalls c filed) := by
  rintro n r ⟨hc, hfiled⟩
  have hstep := x.services.dispatch_precedes n (s := r.session) hc
  cases hr : (x.services.dispatch n).run r.session with
  | ok u s =>
    rw [hr] at hstep
    exact ⟨hstep, hfiled⟩
  | error e s =>
    rw [hr] at hstep
    exact ⟨hstep, hfiled⟩

end Run

namespace Executor

open Run

/-- A run shows the context in which it opens before it visits a node, and adds to it from there. -/
theorem execute_told (x : Executor) (run : RunIdentity) (id : String) (p : Plan) (w : World)
    {c : Context} (hc : x.openContext run p = .ok c) :
    let o := x.execute run id p w
    ∃ filed, o.2.filed = w.filed ++ filed
      ∧ (∀ f ∈ filed.head?, f.document.log = c.events ∧ f.document.warnings = c.warnings)
      ∧ (∀ f ∈ filed, c.Precedes f.document.log f.document.warnings)
      ∧ ∀ finished, o.1 = .ok finished →
        c.Precedes finished.context.events finished.context.warnings := by
  simp only [execute, hc, mapError_ok]
  cases x.clock w.ticks with
  | error e => exact ⟨[], by simp, by simp, by simp, by simp⟩
  | ok time =>
  dsimp only
  cases Record.create run (p.order.map fun n => (n.id, n.type)) time x.configHash with
  | error e => exact ⟨[], by simp, by simp, by simp, by simp⟩
  | ok record =>
  have hopened : Opened c w.filed ⟨id, { w with ticks := w.ticks + 1 }, c, record⟩ := ⟨rfl, rfl⟩
  have hrun := leads_visitAll_of (fun _ h => h) (fun _ _ h => h) (fun _ => Opened.persist)
    (fun _ => Opened.told) framed_recalls framed_recalls (fun _ h => h) (carries_recalls x)
    (fun _ => Recalls.told) p.order _ hopened
  dsimp only
  generalize (x.visitAll p.order).run _ = result at hrun ⊢
  have htold : Told c w.filed (stateOf result) :=
    hrun.stateOf (fun _ _ h => h.told) fun _ h => h
  obtain ⟨hprecedes, filed, hfiled, hhead, hall⟩ := htold
  cases result with
  | ok u r =>
    refine ⟨filed, hfiled, hhead, hall, fun _ hf => ?_⟩
    cases hf
    exact hprecedes
  | error e r =>
    refine ⟨filed, hfiled, hhead, hall, fun _ hf => ?_⟩
    cases hf
    exact hprecedes

theorem openContext_announces (x : Executor) (run : RunIdentity) (g : Graph) (order : List Node) :
    ∃ c others, x.openContext run ⟨g.prune, g.issues, order⟩ = .ok c ∧ c.run = run
      ∧ c.Announces g.issues others := by
  let p : Plan := ⟨g.prune, g.issues, order⟩
  let others : List (String × String) := (g.prune.nodes.filter fun n =>
    !order.any (·.id == n.id)).map fun n => (n.id, unreachableMessage n.id)
  have hwarnings : p.warnings = g.issues.map (fun i => (i.place, i.message)) ++ others := rfl
  obtain ⟨hrun, htime⟩ := (Context.start run x.logTime).header_warnedAll p.warnings
  refine ⟨_, others, x.openContext_eq run p, hrun, ?_, fun node => ?_, fun w hw i hi => ?_⟩
  · rw [Context.events_warnedAll, hwarnings]
    simp only [Context.entry, hrun, htime, ← hwarnings]
    rfl
  · rw [Context.warningsAt_warnedAll, hwarnings]
    simp [Context.start, Context.warningsAt, Table.getD, List.filter_map, Function.comp_def]
  · obtain ⟨n, -, rfl⟩ := List.mem_map.1 hw
    exact Graph.unreachableMessage_ne hi n.id

/-- The same engine, strict or not. -/
def withValidation (x : Executor) (strict : Bool) : Executor :=
  { x with services := { x.services with
    settings := { x.services.settings with strictValidation := strict } } }

theorem plan_strict (s : Settings) {g : Graph} (hs : s.strictValidation = true)
    (hg : g.issues ≠ []) :
    plan s g = .error (.report (.invalid "Execution graph" g.issues)) := by
  have hnot : g.issues.isEmpty = false := by simpa using hg
  rw [plan, if_pos hs, Graph.ensureValid, ensureNone, hnot]
  rfl

theorem plan_lenient (s : Settings) (g : Graph) (hs : s.strictValidation = false) :
    plan s g = (g.prune.plan s.ordering).mapError Failure.plan >>= fun order =>
      .ok ⟨g.prune, g.issues, order⟩ := by
  rw [plan, hs]
  rfl

/-- Without issues it is all the same whether an engine is strict. -/
theorem plan_of_issues (s : Settings) {g : Graph} (hg : g.issues = []) :
    plan s g = (g.plan s.ordering).mapError Failure.plan >>= fun order => .ok ⟨g, [], order⟩ := by
  cases hs : s.strictValidation with
  | true =>
    rw [plan, if_pos hs, Graph.ensureValid, ensureNone, hg]
    rfl
  | false => rw [plan_lenient s g hs, Graph.prune_of_issues hg, hg]

section Planned

variable {x : Executor} {pipelineId userId projectId : String} {w : World} {g : Graph}

theorem run_of_plan_error (hg : loadGraph w.store pipelineId = .ok g) {e : Failure}
    (hp : plan x.services.settings g = .error e) :
    x.run pipelineId userId projectId w = (.error e, w) := by
  have hload : loadGraph w.store pipelineId >>= plan x.services.settings = .error e := by
    rw [hg]
    exact hp
  rw [run, hload]

theorem run_of_plan_ok (hg : loadGraph w.store pipelineId = .ok g) {p : Plan}
    (hp : plan x.services.settings g = .ok p) :
    x.run pipelineId userId projectId w
      = x.execute ⟨.str (x.executionId w.issued), .str pipelineId, .str userId, .str projectId⟩
        (x.executionId w.issued) p { w with issued := w.issued + 1 } := by
  have hload : loadGraph w.store pipelineId >>= plan x.services.settings = .ok p := by
    rw [hg]
    exact hp
  rw [run, hload]

end Planned

/-- Two engines that differ in nothing but whether they are strict do the same on a graph without
issues.  On any other graph the strict one refuses all of its issues and leaves the world as it
was; the other one, if it can plan what is left of the graph, says all of them in order before it
visits a node, each at its node or else at the engine, and what it says later only adds to that. -/
theorem run_withValidation (x : Executor) (pipelineId userId projectId : String) (w : World)
    (g : Graph) (hg : loadGraph w.store pipelineId = .ok g) :
    let strict := (x.withValidation true).run pipelineId userId projectId w
    let lenient := (x.withValidation false).run pipelineId userId projectId w
    (g.issues = [] → strict = lenient)
      ∧ (g.issues ≠ [] → ∃ r, strict = (.error (.report r), w) ∧ r.family = .validation
        ∧ r.name = "ValidationError" ∧ r.issues = g.issues)
      ∧ ∀ order, g.prune.plan x.services.settings.ordering = .ok order →
        ∃ (c : Context) (others : List (String × String)) (filed : List Filing),
          c.run = ⟨.str (x.executionId w.issued), .str pipelineId, .str userId, .str projectId⟩
          ∧ c.Announces g.issues others ∧ lenient.2.filed = w.filed ++ filed
          ∧ (∀ f ∈ filed.head?, f.document.log = c.events ∧ f.document.warnings = c.warnings)
          ∧ (∀ f ∈ filed, c.Precedes f.document.log f.document.warnings)
          ∧ ∀ finished, lenient.1 = .ok finished →
            c.Precedes finished.context.events finished.context.warnings := by
  intro strict lenient
  refine ⟨fun hissues => ?_, fun hissues => ?_, fun order horder => ?_⟩
  · have hstrict := plan_of_issues (x.withValidation true).services.settings hissues
    have hlenient := plan_of_issues (x.withValidation false).services.settings hissues
    -- apart from its plan a run reads nothing of the settings that is about issues
    cases hp : (g.plan x.services.settings.ordering).mapError Failure.plan >>= fun order =>
        (.ok ⟨g, [], order⟩ : Except Failure Plan) with
    | error e =>
      exact (run_of_plan_error hg (hstrict.trans hp)).trans
        (run_of_plan_error hg (hlenient.trans hp)).symm
    | ok p =>
      exact (run_of_plan_ok hg (hstrict.trans hp)).trans
        (run_of_plan_ok hg (hlenient.trans hp)).symm
  · exact ⟨.invalid "Execution graph" g.issues,
      run_of_plan_error hg (plan_strict (x.withValidation true).services.settings rfl hissues),
      rfl, rfl, rfl⟩
  · have hplan : plan (x.withValidation false).services.settings g
        = .ok ⟨g.prune, g.issues, order⟩ := by
      refine (plan_lenient _ g rfl).trans ?_
      change (g.prune.plan x.services.settings.ordering).mapError Failure.plan >>= _ = _
      rw [horder]
      rfl
    have hrun : lenient = _ := run_of_plan_ok hg hplan
    rw [hrun]
    obtain ⟨c, others, hopen, hidentity, hannounces⟩ :=
      (x.withValidation false).openContext_announces
        ⟨.str (x.executionId w.issued), .str pipelineId, .str userId, .str projectId⟩ g order
    obtain ⟨filed, htold⟩ := (x.withValidation false).execute_told _ (x.executionId w.issued)
      ⟨g.prune, g.issues, order⟩ { w with issued := w.issued + 1 } hopen
    exact ⟨c, others, filed, hidentity, hannounces, htold⟩

/-- A node of no known type, another one of its identifier, and an edge that leads nowhere. -/
def doubtfulStore : Store :=
  let node (id type : String) : Value := .ofTable [("id", .str id), ("type", .str type)]
  let edge (source target : String) : Value :=
    .ofTable [("source", .str source), ("target", .str target)]
  .ofBacking (.memory [(pipelinesCollection, [("doubtful", .ofTable [
    ("nodes", .list [node "a" "start", node "b" "mystery", node "b" "end"]),
    ("edges", .list [edge "a" "b", edge "b" "c"])])])]) fun _ => false

def doubtfulGraph : Graph :=
  ⟨[⟨"a", "start", []⟩, ⟨"b", "mystery", []⟩, ⟨"b", "end", []⟩],
    [⟨"a->b", "a", "b"⟩, ⟨"b->c", "b", "c"⟩]⟩

def doubtfulIssues : List Issue :=
  [.unknownNodeType "b" "mystery", .duplicateNode "b", .unknownEndpoint "b->c" .target "c"]

theorem issues_doubtfulGraph : doubtfulGraph.issues = doubtfulIssues := rfl

/-- The graph of `chainStore`. -/
def chainGraph : Graph :=
  ⟨[⟨"a", "start", []⟩, ⟨"b", "build_vite", []⟩, ⟨"c", "end", []⟩],
    [⟨"a->b", "a", "b"⟩, ⟨"b->c", "b", "c"⟩]⟩

theorem issues_chainGraph : chainGraph.issues = [] := rfl

theorem run_withValidation_doubtful :
    let w := World.start doubtfulStore
    let clean := World.start (chainStore fun _ => false)
    let strict := (unableToBuild.withValidation true).run "doubtful" "user" "project" w
    let lenient := (unableToBuild.withValidation false).run "doubtful" "user" "project" w
    (∃ r, strict = (.error (.report r), w) ∧ r.issues = doubtfulIssues)
      ∧ (∃ (c : Context) (others : List (String × String)), c.Announces doubtfulIssues others
        ∧ ∀ f ∈ lenient.2.filed.head?, f.document.log = c.events)
      ∧ (unableToBuild.withValidation true).run "chain" "user" "project" clean
        = (unableToBuild.withValidation false).run "chain" "user" "project" clean := by
  intro w clean strict lenient
  obtain ⟨hclean, -, -⟩ :=
    run_withValidation unableToBuild "chain" "user" "project" clean chainGraph rfl
  obtain ⟨-, hstrict, hlenient⟩ := run_withValidation unableToBuild "doubtful" "user" "project" w
    doubtfulGraph rfl
  rw [issues_doubtfulGraph] at hstrict hlenient
  obtain ⟨r, hrun, -, -, hissues⟩ := hstrict (by decide)
  obtain ⟨c, others, filed, -, hannounces, hfiled, hhead, -⟩ :=
    hlenient [⟨"a", "start", []⟩, ⟨"b", "mystery", []⟩] rfl
  refine ⟨⟨r, hrun, hissues⟩, ⟨c, others, hannounces, ?_⟩, hclean issues_chainGraph⟩
  rw [hfiled]
  exact fun f hf => (hhead f hf).1

end Executor

end BuildPipeline
