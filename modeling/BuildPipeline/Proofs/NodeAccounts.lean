import BuildPipeline.Proofs.NodeEffects
import BuildPipeline.Proofs.RunFilings

/-! Accounts of nodes.  A run that drops what cannot be planned loses no declared node: each one is
either planned and in the record, or set aside with a warning, and the step at it has no say in the
run. -/

namespace BuildPipeline

open BuildPipeline.Time

namespace Graph

variable {g : Graph} {order : List Node} {n : Node}

theorem mem_nodes_of_mem_plan {t : Traversal} (h : g.plan t = .ok order) (hn : n ∈ order) :
    n ∈ g.nodes := by
  rw [plan.eq_def] at h
  obtain ⟨_, -, h⟩ := bind_eq_ok.1 h
  cases t with
  | preorder =>
    obtain rfl := Except.ok.inj h
    exact mem_nodes_of_mem_preorder hn
  | topological =>
    obtain ⟨-, rfl⟩ := topological_eq_nodesAt h
    obtain ⟨i, -, hi⟩ := List.mem_filterMap.1 hn
    exact List.mem_of_getElem? hi

/-- A topological plan is one of all nodes. -/
theorem perm_of_plan_topological (hg : g.Distinct) (hclosed : g.Closed)
    (h : g.plan .topological = .ok order) : order.Perm g.nodes := by
  rw [plan_topological_of_closed hg hclosed] at h
  split at h
  case isTrue hstuck =>
    cases h
    exact nodesAt_greedyPlaces_perm hclosed ((stuckPlaces_isEmpty_iff hg hclosed).1 hstuck)
  case isFalse => cases h

end Graph

namespace Record

/-- What no step of a run at certain nodes changes of a record, not even one that fails. -/
structure Lasting (I : Record → Prop) (ids : List String) : Prop where
  runStarted (t : Moment) : Keeps I (runStarted t)
  nodeStarted {id : String} (hid : id ∈ ids) (t : Moment) : Keeps I (nodeStarted id t)
  nodeFinished {id : String} (hid : id ∈ ids) (outputs : Value) (t : Moment) :
    Keeps I (nodeFinished id outputs t)
  nodeFailed {id : String} (hid : id ∈ ids) (error : Value) (t : Moment) :
    Keeps I (nodeFailed id error t)
  runFinished (status : RunStatus) (t : Moment) : Keeps I (runFinished status t)

/-- Steps at the nodes of a record leave it at these nodes. -/
theorem lasting_keys (ids : List String) : Lasting (·.nodes.keys = ids) ids where
  runStarted t := nodes_runStarted (J := (·.keys = ids)) t
  nodeStarted hid t := nodes_nodeStarted (bears_keys hid _) t
  nodeFinished hid outputs t := nodes_nodeFinished (bears_keys hid _) outputs t
  nodeFailed hid error t := nodes_nodeFailed (bears_keys hid _) error t
  runFinished status t := nodes_runFinished (J := (·.keys = ids)) status t

end Record

namespace Run

variable {I : Record → Prop} {α : Type} {R : α → Run → Prop}

/-- A step at the time of the clock that keeps what holds of the record. -/
theorem leads_lasting {f : Moment → RecordStep Unit} (hf : ∀ t, Record.Keeps I (f t))
    (x : Executor) {k : RunStep α} (hk : Leads (I ·.record) k R (I ·.record)) :
    Leads (I ·.record) (x.tick >>= fun t => onRecord (f t) >>= fun _ => k) R (I ·.record) := by
  refine leads_bind (leads_tick (fun _ h => h) (fun _ h => h) x) fun t => leads_bind ?_ fun _ => hk
  intro r hr
  have hfr := hf t r.record hr
  simp only [onRecord, EStateM.run_bind, EStateM.run_get]
  cases h : (f t).run r.record with
  | ok u record | error e record =>
    rw [h] at hfr
    exact hfr

theorem leads_modify_record {g : Run → Run} (hg : ∀ r, (g r).record = r.record) :
    Leads (I ·.record) (modify g) (fun _ => (I ·.record)) (I ·.record) :=
  leads_modify fun r h => (hg r).symm ▸ h

theorem leads_persist_record :
    Leads (I ·.record) (modify persist) (fun _ => (I ·.record)) (I ·.record) :=
  leads_modify_record persist_record

end Run

namespace Executor

open Run

section Record

variable {x : Executor} {I : Record → Prop} {ids : List String} {n : Node} {order : List Node}

theorem leads_failNode_record (hI : Record.Lasting I ids) (hn : n.id ∈ ids) (e : Failure)
    {Q : Unit → Run → Prop} : Leads (I ·.record) (x.failNode n e) Q (I ·.record) := by
  refine leads_bind (leads_liftExcept (fun _ h => h) _) fun payload => ?_
  refine leads_lasting (hI.nodeFailed hn _) x ?_
  refine leads_bind (leads_modify_record fun _ => rfl) fun _ => ?_
  refine leads_lasting (hI.runFinished _) x ?_
  exact leads_bind leads_persist_record fun _ => leads_throw

theorem leads_visit_record (hI : Record.Lasting I ids) (hn : n.id ∈ ids) :
    Leads (I ·.record) (x.visit n) (fun _ => (I ·.record)) (I ·.record) := by
  refine leads_lasting (hI.nodeStarted hn) x (leads_bind leads_persist_record fun _ => ?_)
  refine leads_bind (leads_attempt fun r h => ?_) fun result => ?_
  · cases (x.services.dispatch n).run r.session <;> exact h
  · cases result with
    | error e => exact leads_failNode_record hI hn e
    | ok u => exact leads_get fun r => leads_lasting (hI.nodeFinished hn _) x leads_persist_record

/-- A run keeps what lasts at its nodes, wherever it ends. -/
theorem leads_visitAll_record (hI : Record.Lasting I ids) (horder : ∀ n ∈ order, n.id ∈ ids) :
    Leads (I ·.record) (x.visitAll order) (fun _ => (I ·.record)) (I ·.record) := by
  have hvisits : Leads (I ·.record) (order.forM x.visit) (fun _ => (I ·.record)) (I ·.record) := by
    induction order with
    | nil => exact fun _ h => h
    | cons n ns ih =>
      refine leads_bind (leads_visit_record hI (horder n List.mem_cons_self)) fun _ => ?_
      exact ih fun m hm => horder m (List.mem_cons_of_mem n hm)
  refine leads_lasting hI.runStarted x (leads_bind leads_persist_record fun _ => ?_)
  refine leads_bind hvisits fun _ => ?_
  exact leads_lasting (hI.runFinished _) x leads_persist_record

end Record

end Executor

section Unreachable

/-- Whether it is said of a node that it is not going to run. -/
def Context.SetsAside (c : Context) (id : String) : Prop :=
  .str (unreachableMessage id) ∈ warningsAt c.warnings id

theorem Context.setsAside_warned {c : Context} {node message id : String}
    (h : unreachableMessage id ≠ message) :
    (c.warned node message).SetsAside id ↔ c.SetsAside id := by
  rw [SetsAside, warningsAt_warned, List.mem_append, SetsAside]
  refine or_iff_left fun hmem => ?_
  split at hmem
  · exact h (by simpa using hmem)
  · cases hmem

/-- What a node leaves of warnings is about no node that is not going to run. -/
theorem Services.setsAside_dispatch (x : Services) (n : Node) (s : Session) (id : String) :
    (stateOf ((x.dispatch n).run s)).context.SetsAside id ↔ s.context.SetsAside id := by
  cases hn : n.notice? with
  | none => rw [Context.SetsAside, dispatch_of_no_notice hn, Context.SetsAside]
  | some notice =>
    rw [dispatch_of_notice hn]
    exact Context.setsAside_warned (n.unreachableMessage_ne hn id)

/-- A run sets the same nodes aside as a context. -/
def Run.SetsAsideAs (c : Context) (r : Run) : Prop :=
  ∀ id, r.context.SetsAside id ↔ c.SetsAside id

theorem Run.framed_setsAside (c : Context) : Framed (SetsAsideAs c) where
  ticked h := h
  recorded _ h := h
  logged _ _ _ _ _ h := h
  persisted := by
    intro r h
    obtain ⟨⟨added, hadded⟩, -, -⟩ := r.persist_session
    rw [SetsAsideAs, hadded]
    exact h

theorem Executor.carries_setsAside (x : Executor) (c : Context) :
    x.Carries (Run.SetsAsideAs c) (Run.SetsAsideAs c) := by
  intro n r h
  have hstep (id : String) := (x.services.setsAside_dispatch n r.session id).trans (h id)
  generalize (x.services.dispatch n).run r.session = result at hstep
  cases result <;> exact hstep

namespace Executor

variable {p : Plan} {g : Graph} {id : String}

theorem Plan.mem_warnings (hissues : p.issues = g.issues) :
    (id, unreachableMessage id) ∈ p.warnings ↔ id ∈ p.graph.ids ∧ id ∉ p.order.map (·.id) := by
  have hsaid : (id, unreachableMessage id) ∉ p.issues.map fun i => (i.place, i.message) := by
    rw [hissues]
    intro hmem
    obtain ⟨i, hi, heq⟩ := List.mem_map.1 hmem
    exact Graph.unreachableMessage_ne hi id (Prod.mk.inj heq).2.symm
  have hwarnings : p.warnings = p.issues.map (fun i => (i.place, i.message))
    ++ (p.graph.nodes.filter fun n => !p.order.any (·.id == n.id)).map
      fun n => (n.id, unreachableMessage n.id) := rfl
  rw [hwarnings, List.mem_append, or_iff_right hsaid, List.mem_map]
  constructor
  · rintro ⟨n, hn, heq⟩
    obtain ⟨hmem, hunplanned⟩ := List.mem_filter.1 hn
    obtain rfl := (Prod.mk.inj heq).1
    exact ⟨List.mem_map_of_mem hmem, by simpa using hunplanned⟩
  · rintro ⟨hid, hunplanned⟩
    obtain ⟨n, hn, rfl⟩ := List.mem_map.1 hid
    exact ⟨n, List.mem_filter.2 ⟨hn, by simpa using hunplanned⟩, rfl⟩

/-- A run opens with a warning at every node that is not planned. -/
theorem openContext_setsAside {x : Executor} {run : RunIdentity} {c : Context}
    (hissues : p.issues = g.issues) (hc : x.openContext run p = .ok c) :
    c.SetsAside id ↔ id ∈ p.graph.ids ∧ id ∉ p.order.map (·.id) := by
  rw [openContext_eq] at hc
  cases hc
  rw [← Plan.mem_warnings hissues, Context.SetsAside, Context.warningsAt_warnedAll]
  simp [Context.start, Context.warningsAt, Table.getD]

end Executor

end Unreachable

namespace Executor

section Handlers

variable {handle handle' : Node → SessionStep Unit} {order : List Node}

/-- A visit with `handle` for the step at the node. -/
def visitWith (x : Executor) (handle : Node → SessionStep Unit) (n : Node) : RunStep Unit := do
  let time ← x.tick
  Run.onRecord (Record.nodeStarted n.id time)
  modify Run.persist
  match ← Run.attempt (handle n) with
  | .error e => x.failNode n e
  | .ok _ => do
    let outputs := (← get).context.snapshot
    let time ← x.tick
    Run.onRecord (Record.nodeFinished n.id (.dict outputs) time)
    modify Run.persist

def visitAllWith (x : Executor) (handle : Node → SessionStep Unit) (order : List Node) :
    RunStep Unit := do
  let time ← x.tick
  Run.onRecord (Record.runStarted time)
  modify Run.persist
  order.forM (x.visitWith handle)
  let time ← x.tick
  Run.onRecord (Record.runFinished .success time)
  modify Run.persist

def executeWith (x : Executor) (handle : Node → SessionStep Unit) (run : RunIdentity) (id : String)
    (p : Plan) (w : World) : Except Failure FinishedRun × World :=
  match (x.openContext run p).mapError Failure.shape with
  | .error e => (.error e, w)
  | .ok context =>
    let w' := { w with ticks := w.ticks + 1 }
    match x.clock w.ticks with
    | .error e => (.error e, w')
    | .ok time =>
      match Record.create run (p.order.map fun n => (n.id, n.type)) time x.configHash with
      | .error e => (.error e, w')
      | .ok record =>
        match (x.visitAllWith handle p.order).run ⟨id, w', context, record⟩ with
        | .ok _ r => (.ok ⟨.ok (), r.id, r.context, r.record⟩, r.world)
        | .error e r => (.ok ⟨.error e, r.id, r.context, r.record⟩, r.world)

/-- A run with `handle` for the steps at its nodes. -/
def runWith (x : Executor) (handle : Node → SessionStep Unit) (pipelineId userId projectId : String)
    (w : World) : Except Failure FinishedRun × World :=
  match loadGraph w.store pipelineId >>= plan x.services.settings with
  | .error e => (.error e, w)
  | .ok p =>
    let id := x.executionId w.issued
    x.executeWith handle ⟨.str id, .str pipelineId, .str userId, .str projectId⟩ id p
      { w with issued := w.issued + 1 }

/-- The engine's own runs are those with the steps of its services. -/
theorem runWith_dispatch (x : Executor) : x.runWith x.services.dispatch = x.run := rfl

theorem visitAllWith_congr (x : Executor) (h : ∀ n ∈ order, handle n = handle' n) :
    x.visitAllWith handle order = x.visitAllWith handle' order := by
  have hvisits : order.forM (x.visitWith handle) = order.forM (x.visitWith handle') := by
    induction order with
    | nil => rfl
    | cons n ns ih =>
      have hhead : x.visitWith handle n = x.visitWith handle' n := by
        rw [visitWith, h n List.mem_cons_self, visitWith]
      have htail := ih fun m hm => h m (List.mem_cons_of_mem n hm)
      change (x.visitWith handle n >>= fun _ => ns.forM (x.visitWith handle)) = _
      rw [hhead, htail]
      rfl
  rw [visitAllWith, hvisits, visitAllWith]

/-- The steps at nodes that are not planned have no say in a run. -/
theorem runWith_eq_run {x : Executor} {pipelineId userId projectId : String} {w : World}
    (h : ∀ p, loadGraph w.store pipelineId >>= plan x.services.settings = .ok p →
      ∀ n ∈ p.order, handle n = x.services.dispatch n) :
    x.runWith handle pipelineId userId projectId w = x.run pipelineId userId projectId w := by
  rw [← runWith_dispatch, runWith, runWith]
  cases hp : loadGraph w.store pipelineId >>= plan x.services.settings with
  | error e => rfl
  | ok p => simp only [executeWith, x.visitAllWith_congr (h p hp)]

end Handlers

section Accounts

variable {x : Executor} {g : Graph} {p : Plan} {f : FinishedRun} {id : String}

/-- A declared node that is planned, as its first declaration, and in the record, without a word of
its not going to run. -/
structure Schedules (g : Graph) (p : Plan) (f : FinishedRun) (id : String) : Prop where
  planned : ∃ n ∈ p.order, g.node? id = some n
  recorded : id ∈ f.record.nodes.keys
  unwarned : .str (unreachableMessage id) ∉ Context.warningsAt f.context.warnings id

/-- A declared node that is not going to run, as a warning at it says. -/
structure Shelves (p : Plan) (f : FinishedRun) (id : String) : Prop where
  unplanned : id ∉ p.order.map (·.id)
  unrecorded : id ∉ f.record.nodes.keys
  warned : .str (unreachableMessage id) ∈ Context.warningsAt f.context.warnings id

/-- What becomes of a plan whose run has a record. -/
theorem execute_accounts {identity : RunIdentity} (hissues : p.issues = g.issues)
    (hids : (p.order.map (·.id)).Nodup) {w : World}
    (hf : (x.execute identity id p w).1 = .ok f) :
    f.record.nodes.keys = p.order.map (·.id)
      ∧ ∀ id, f.context.SetsAside id ↔ id ∈ p.graph.ids ∧ id ∉ p.order.map (·.id) := by
  obtain ⟨context, hopen, ⟨e, hrun, -⟩ | ⟨t, record, -, hshows, hrun⟩⟩ :=
    x.execute_cases identity id hids w
  · rw [hrun] at hf
    cases hf
  · have hkeys : record.nodes.keys = p.order.map (·.id) := by
      rw [hshows.keys]
      simp [withStatus, Function.comp_def]
    let start : Run := ⟨id, { w with ticks := w.ticks + 1 }, context, record⟩
    have hrecord := leads_visitAll_record (x := x) (Record.lasting_keys (p.order.map (·.id)))
      (fun n hn => List.mem_map_of_mem hn) start hkeys
    have haside := leads_visitAll (Run.framed_setsAside context) (Run.framed_setsAside context)
      (fun _ h => h) (x.carries_setsAside context) p.order start fun _ => Iff.rfl
    change x.execute identity id p w = Run.finished ((x.visitAll p.order).run start) at hrun
    rw [hrun] at hf
    have hset (other : String) : context.SetsAside other
        ↔ other ∈ p.graph.ids ∧ other ∉ p.order.map (·.id) := openContext_setsAside hissues hopen
    generalize (x.visitAll p.order).run start = result at hf hrecord haside
    cases result with
    | ok u r | error e r =>
      cases hf
      exact ⟨hrecord, fun other => (haside other).trans (hset other)⟩

theorem plan_eq_ok_iff {s : Settings} (hs : s.strictValidation = false) : plan s g = .ok p
    ↔ ∃ order, g.prune.plan s.ordering = .ok order ∧ p = ⟨g.prune, g.issues, order⟩ := by
  rw [plan_lenient s g hs, bind_eq_ok]
  refine exists_congr fun order => and_congr mapError_eq_ok ?_
  rw [Except.ok.injEq, eq_comm]

/-- A lenient run loses no declared node.  It is always planned in pre-order, and once it is planned
and its clock can be read it has a record of just the planned nodes, each the first declaration of
its identifier.  Each declared identifier is either scheduled or shelved: that one has a warning that
it is not going to run, and whatever the step at such a node were, the run would be the same.  In
topological order none is shelved. -/
theorem run_accounts (x : Executor) (pipelineId userId projectId : String) (w : World) (g : Graph)
    (hg : loadGraph w.store pipelineId = .ok g)
    (hlenient : x.services.settings.strictValidation = false) (hvisible : ¬g.HasBlank) :
    let settings := x.services.settings
    let o := x.run pipelineId userId projectId w
    (settings.ordering = .preorder → ∃ p, plan settings g = .ok p)
      ∧ ∀ p, plan settings g = .ok p →
        (x.ReadsUtc → ∃ f, o.1 = .ok f)
        ∧ (∀ n ∈ p.order, g.node? n.id = some n)
        ∧ ∀ f, o.1 = .ok f →
          f.record.nodes.keys = p.order.map (·.id)
          ∧ ∀ id ∈ g.ids, Xor (Schedules g p f id) (Shelves p f id)
            ∧ (settings.ordering = .topological → Schedules g p f id)
            ∧ (Shelves p f id →
              ∀ handle : Node → SessionStep Unit,
                (∀ n, n.id ≠ id → handle n = x.services.dispatch n) →
                x.runWith handle pipelineId userId projectId w = o) := by
  intro settings o
  have hdistinct := Graph.distinct_of_visible g.nodup_ids_prune (mt Graph.hasBlank_prune.1 hvisible)
  refine ⟨fun hpreorder => ?_, fun p hp => ?_⟩
  · refine ⟨_, (plan_eq_ok_iff hlenient).2 ⟨g.prune.preorder, ?_, rfl⟩⟩
    rw [show x.services.settings.ordering = .preorder from hpreorder]
    exact Graph.plan_preorder hdistinct
  have hids := plan_order_nodup hp
  have hrun : o = _ := run_of_plan_ok hg hp
  have hload : loadGraph w.store pipelineId >>= plan settings = .ok p := by rw [hg]; exact hp
  obtain ⟨order, horder, rfl⟩ := (plan_eq_ok_iff hlenient).1 hp
  have hfirst : ∀ n ∈ order, g.node? n.id = some n := fun n hn =>
    Graph.find?_of_mem_firstNodesFrom (Graph.mem_nodes_of_mem_plan horder hn)
  refine ⟨fun hclock => ?_, hfirst, fun f hf => ?_⟩
  · obtain ⟨_, -, ⟨e, -, hstopped⟩ | ⟨t, record, -, -, hvisits⟩⟩ := x.execute_cases
      ⟨.str (x.executionId w.issued), .str pipelineId, .str userId, .str projectId⟩
      (x.executionId w.issued) hids { w with issued := w.issued + 1 }
    · exact absurd hclock hstopped
    · rw [hrun, hvisits]
      cases (x.visitAll order).run _ <;> exact ⟨_, rfl⟩
  rw [hrun] at hf
  obtain ⟨hkeys, haside⟩ := execute_accounts rfl hids hf
  refine ⟨hkeys, fun id hid => ?_⟩
  have hdeclared : id ∈ g.prune.ids := Graph.mem_ids_prune.2 hid
  by_cases hplanned : id ∈ order.map (·.id)
  · obtain ⟨n, hn, rfl⟩ := List.mem_map.1 hplanned
    have hscheduled : Schedules g ⟨g.prune, g.issues, order⟩ f n.id :=
      ⟨⟨n, hn, hfirst n hn⟩, hkeys ▸ hplanned, fun h => ((haside n.id).1 h).2 hplanned⟩
    exact ⟨.inl ⟨hscheduled, fun h => h.unplanned hplanned⟩, fun _ => hscheduled,
      fun h => absurd hplanned h.unplanned⟩
  · have hshelved : Shelves ⟨g.prune, g.issues, order⟩ f id :=
      ⟨hplanned, hkeys ▸ hplanned, (haside id).2 ⟨hdeclared, hplanned⟩⟩
    refine ⟨.inr ⟨hshelved, ?_⟩, fun htopological => ?_, fun _ handle hhandle => ?_⟩
    · rintro ⟨⟨n, hn, hnode⟩, -, -⟩
      exact hplanned (List.mem_map.2 ⟨n, hn, Graph.node?_id hnode⟩)
    · rw [show x.services.settings.ordering = .topological from htopological] at horder
      have hperm := Graph.perm_of_plan_topological hdistinct g.closed_prune horder
      exact absurd ((hperm.map (·.id)).mem_iff.2 hdeclared) hplanned
    · refine runWith_eq_run fun p' hp' n hn => hhandle n fun hid => hplanned ?_
      cases hload.symm.trans hp'
      exact List.mem_map.2 ⟨n, hn, hid⟩

/-- Two nodes that only lead to each other, beside a node that is declared twice. -/
def islandStore : Store :=
  let node (id type : String) : Value := .ofTable [("id", .str id), ("type", .str type)]
  let edge (source target : String) : Value :=
    .ofTable [("source", .str source), ("target", .str target)]
  .ofBacking (.memory [(pipelinesCollection, [("island", .ofTable [
    ("nodes", .list [node "a" "start", node "b" "end", node "b" "deploy", node "c" "deploy",
      node "d" "deploy"]),
    ("edges", .list [edge "a" "b", edge "c" "d", edge "d" "c"])])])]) fun _ => false

def islandGraph : Graph :=
  ⟨[⟨"a", "start", []⟩, ⟨"b", "end", []⟩, ⟨"b", "deploy", []⟩, ⟨"c", "deploy", []⟩,
    ⟨"d", "deploy", []⟩], [⟨"a->b", "a", "b"⟩, ⟨"c->d", "c", "d"⟩, ⟨"d->c", "d", "c"⟩]⟩

theorem run_accounts_island :
    let x := shipping.withValidation false
    let w := World.start islandStore
    let order : List Node := [⟨"a", "start", []⟩, ⟨"b", "end", []⟩]
    let p : Plan := ⟨islandGraph.prune, islandGraph.issues, order⟩
    ∃ f, (x.run "island" "user" "project" w).1 = .ok f ∧ f.record.nodes.keys = ["a", "b"]
      ∧ Schedules islandGraph p f "b" ∧ Shelves p f "c"
      ∧ x.runWith (fun n => if n.id = "c" then throw (.unknownStatus .null)
          else x.services.dispatch n) "island" "user" "project" w
        = x.run "island" "user" "project" w := by
  intro x w order p
  obtain ⟨-, haccounts⟩ := run_accounts x "island" "user" "project" w islandGraph rfl rfl
    (by unfold Graph.HasBlank; decide)
  obtain ⟨hrecord, -, hall⟩ := haccounts p rfl
  obtain ⟨f, hf⟩ := hrecord fun _ => ⟨_, _, rfl, rfl⟩
  obtain ⟨hkeys, hids⟩ := hall f hf
  obtain ⟨hb, -, -⟩ := hids "b" (by decide)
  obtain ⟨hc, -, hunasked⟩ := hids "c" (by decide)
  have hshelved : Shelves p f "c" := by
    rcases hc with ⟨⟨⟨n, hn, hnode⟩, -, -⟩, -⟩ | ⟨h, -⟩
    · exact absurd (List.mem_map.2 ⟨n, hn, Graph.node?_id hnode⟩) (by decide)
    · exact h
  refine ⟨f, hf, hkeys, ?_, hshelved, hunasked hshelved _ fun n hn => if_neg hn⟩
  rcases hb with ⟨h, -⟩ | ⟨h, -⟩
  · exact h
  · exact absurd h.unplanned (by decide)

end Accounts

end Executor

end BuildPipeline
