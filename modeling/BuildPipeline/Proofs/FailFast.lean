import BuildPipeline.Proofs.Persistence
import BuildPipeline.Proofs.PlanLaws
import BuildPipeline.Proofs.RecordLaws
import BuildPipeline.Proofs.Reportable

/-! Failing fast.  A run that was planned ends at its first node that fails, or after its last one,
and its record, its outcome and the calls of the triggers agree on which it was. -/

namespace BuildPipeline

open BuildPipeline.Time Record

theorem forM_run_cons {ε σ α : Type} (f : α → EStateM ε σ Unit) (a : α) (as : List α) (s : σ) :
    ((a :: as).forM f).run s = match (f a).run s with
      | .ok _ t => (as.forM f).run t
      | .error e t => .error e t := by
  change (f a >>= fun _ => as.forM f).run s = _
  rw [EStateM.run_bind]
  cases (f a).run s <;> rfl

/-- The steps at some nodes, one after another, up to the first failure. -/
def Services.dispatchAll (x : Services) (order : List Node) : SessionStep Unit :=
  order.forM x.dispatch

/-- The steps at some nodes succeed, and the one at the next node fails. -/
def Services.BreaksAt (x : Services) (s : Session) (before : List Node) (n : Node) (e : Failure)
    (s' : Session) : Prop :=
  ∃ mid, (x.dispatchAll before).run s = .ok () mid ∧ (x.dispatch n).run mid = .error e s'

theorem Services.breaksAt_nil {x : Services} {s s' : Session} {n : Node} {e : Failure} :
    x.BreaksAt s [] n e s' ↔ (x.dispatch n).run s = .error e s' := by
  constructor
  · rintro ⟨mid, hmid, hn⟩
    cases hmid
    exact hn
  · exact fun hn => ⟨s, rfl, hn⟩

theorem Services.breaksAt_cons {x : Services} {s s' : Session} {m n : Node} {before : List Node}
    {e : Failure} : x.BreaksAt s (m :: before) n e s'
      ↔ ∃ t, (x.dispatch m).run s = .ok () t ∧ x.BreaksAt t before n e s' := by
  rw [BreaksAt, dispatchAll, forM_run_cons]
  cases (x.dispatch m).run s with
  | ok u t => simp [BreaksAt, dispatchAll]
  | error e t => simp

theorem Services.BreaksAt.dispatchAll {x : Services} {s s' : Session} {before : List Node}
    {n : Node} {e : Failure} (h : x.BreaksAt s before n e s') (rest : List Node) :
    (x.dispatchAll (before ++ n :: rest)).run s = .error e s' := by
  induction before generalizing s with
  | nil => rw [List.nil_append, Services.dispatchAll, forM_run_cons, breaksAt_nil.1 h]
  | cons m before ih =>
    obtain ⟨t, hm, ht⟩ := breaksAt_cons.1 h
    rw [List.cons_append, Services.dispatchAll, forM_run_cons, hm]
    exact ih ht

/-- There is at most one node at which the steps at some nodes end. -/
theorem Services.BreaksAt.unique {x : Services} {s s' s'' : Session} {before before' : List Node}
    {n n' : Node} {e e' : Failure} (h : x.BreaksAt s before n e s')
    (h' : x.BreaksAt s before' n' e' s'') {after after' : List Node}
    (heq : before ++ n :: after = before' ++ n' :: after') :
    before = before' ∧ n = n' ∧ e = e' ∧ s' = s'' := by
  induction before generalizing s before' with
  | nil =>
    have hn := breaksAt_nil.1 h
    cases before' with
    | nil =>
      cases heq
      have hn' := breaksAt_nil.1 h'
      rw [hn] at hn'
      cases hn'
      exact ⟨rfl, rfl, rfl, rfl⟩
    | cons m before' =>
      cases heq
      obtain ⟨t, hm, -⟩ := breaksAt_cons.1 h'
      cases hn.symm.trans hm
  | cons m before ih =>
    obtain ⟨t, hm, ht⟩ := breaksAt_cons.1 h
    cases before' with
    | nil =>
      cases heq
      cases hm.symm.trans (breaksAt_nil.1 h')
    | cons m' before' =>
      obtain ⟨rfl, hrest⟩ := List.cons.inj heq
      obtain ⟨t', hm', ht'⟩ := breaksAt_cons.1 h'
      rw [hm] at hm'
      cases hm'
      obtain ⟨rfl, hsame⟩ := ih ht ht' hrest
      exact ⟨rfl, hsame⟩

/-- Whatever failure ends the steps at some nodes can be written down. -/
def Services.FailsReportably (x : Services) (s : Session) (order : List Node) : Prop :=
  ∀ ⦃before n e s'⦄, before ++ [n] <+: order → x.BreaksAt s before n e s' → e.Reportable

/-- Every reading of the clock has a date in UTC. -/
def Executor.ReadsUtc (x : Executor) : Prop := ∀ n, ∃ t u, x.clock n = .ok t ∧ t.utc = .ok u

/-- What is recorded at a node that succeeds. -/
def passed (n : Node) : List (Option Value × Option Value) :=
  [ofNode "node_started" n.id, ofNode "node_finished" n.id]

/-- What is recorded at a node that fails. -/
def broken (n : Node) : List (Option Value × Option Value) :=
  [ofNode "node_started" n.id, ofNode "node_failed" n.id]

def withStatus (status : NodeStatus) (ns : List Node) : List (String × NodeStatus) :=
  ns.map fun n => (n.id, status)

/-- What is left when every node has succeeded, which left the session `s`. -/
structure Completed (context : Context) (record : Record) (journal : Journal) (s : Session)
    (order : List Node) : Prop where
  journal : journal = s.journal
  context : context.own = s.context
  record : record.Concludes .success (withStatus .success order) (order.flatMap passed)

/-- What is left when a node has failed, which left the session `s`: nothing but a log entry is
added to it, and the nodes after it are as they were. -/
structure BrokenOff (context : Context) (record : Record) (journal : Journal) (s : Session)
    (done : List Node) (n : Node) (rest : List Node) (e : Failure) : Prop where
  journal : journal = s.journal
  context : ∃ payload, e.payload n.id = .ok payload
    ∧ context.own = s.context.log (.str n.id) (.str "error") payload.message
      (Dict.of [("error_type", .str payload.type)])
  record : record.Concludes .failed
    (withStatus .success done ++ (n.id, .failed) :: withStatus .pending rest)
    (done.flatMap passed ++ broken n)

namespace Run

@[simp] theorem persist_record (r : Run) : r.persist.record = r.record :=
  congrArg View.record (view_persist r)

@[simp] theorem persist_own (r : Run) : r.persist.context.own = r.context.own :=
  congrArg View.context (view_persist r)

@[simp] theorem persist_journal (r : Run) : r.persist.world.journal = r.world.journal :=
  congrArg View.journal (view_persist r)

theorem onRecord_run {f : RecordStep Unit} (r : Run) {record : Record}
    (h : f.run r.record = .ok () record) :
    (onRecord f).run r = .ok () { r with record := record } := by
  simp only [onRecord, EStateM.run_bind, EStateM.run_get, h]
  rfl

/-- A run between two nodes, with the session that the nodes before it have left. -/
structure Reached (r : Run) (s : Session) (done rest : List Node) : Prop where
  context : r.context.own = s.context
  journal : r.world.journal = s.journal
  record : r.record.Shows (withStatus .success done ++ withStatus .pending rest)
    (ofRun "run_started" :: done.flatMap passed)

/-- A step at a node does to a run what it does to the session. -/
theorem attempt_reached {f : SessionStep Unit} (hf : Session.Appends f) {r : Run} {s : Session}
    (hc : r.context.own = s.context) (hj : r.world.journal = s.journal) :
    ∃ result r', (attempt f).run r = .ok result r' ∧ r'.record = r.record
      ∧ match f.run s with
        | .ok _ s' => result = .ok () ∧ r'.context.own = s'.context ∧ r'.world.journal = s'.journal
        | .error e s' =>
          result = .error e ∧ r'.context.own = s'.context ∧ r'.world.journal = s'.journal := by
  have hown := hf.run_own r.session
  rw [show r.session.own = s by cases s; simp_all [Session.own, session]] at hown
  rw [attempt_run, hown]
  cases f.run r.session with
  | ok u t => exact ⟨_, _, rfl, rfl, rfl, rfl, rfl⟩
  | error e t => exact ⟨_, _, rfl, rfl, rfl, rfl, rfl⟩

end Run

namespace Executor

open Run

variable {x : Executor}

theorem tick_run (hclock : x.ReadsUtc) (r : Run) :
    ∃ t u, t.utc = .ok u ∧ x.tick.run r
      = .ok t { r with world := { r.world with ticks := r.world.ticks + 1 } } := by
  obtain ⟨t, u, ht, hu⟩ := hclock r.world.ticks
  refine ⟨t, u, hu, ?_⟩
  simp only [tick, EStateM.run_bind, EStateM.run_get, EStateM.run_modify, ht]
  rfl

/-- A step on the record at the time of the clock, and what comes after it. -/
theorem record_step (hclock : x.ReadsUtc) {f : Moment → RecordStep Unit} {Q : Record → Prop}
    (r : Run)
    (hf : ∀ t u, t.utc = .ok u → ∃ record, (f t).run r.record = .ok () record ∧ Q record) :
    ∃ r' : Run, r'.context = r.context ∧ r'.world.journal = r.world.journal ∧ Q r'.record
      ∧ ∀ {α : Type} (k : RunStep α),
        (x.tick >>= fun t => onRecord (f t) >>= fun _ => k).run r = k.run r' := by
  obtain ⟨t, u, hu, htick⟩ := tick_run hclock r
  obtain ⟨record, hrun, hq⟩ := hf t u hu
  refine ⟨{ r with record := record, world := { r.world with ticks := r.world.ticks + 1 } }, rfl, rfl,
    hq, fun k => ?_⟩
  have hrecord := onRecord_run { r with world := { r.world with ticks := r.world.ticks + 1 } } hrun
  rw [EStateM.run_bind, htick]
  dsimp only at hrecord ⊢
  rw [EStateM.run_bind, hrecord]

/-- A failure at a node that was started: it is written down and goes on. -/
theorem failNode_run (hclock : x.ReadsUtc) {n : Node} {e : Failure} (he : e.Reportable) {r : Run}
    {done rest : List Node} (hr : r.record.Shows
      (withStatus .success done ++ (n.id, .running) :: withStatus .pending rest)
      (ofRun "run_started" :: done.flatMap passed ++ [ofNode "node_started" n.id]))
    (hid : n.id ∉ (withStatus .success done).map (·.1)) (hstart : r.record.Started n.id) :
    ∃ r', (x.failNode n e).run r = .error e r'
      ∧ BrokenOff r'.context r'.record r'.world.journal ⟨r.context.own, r.world.journal⟩
        done n rest e := by
  obtain ⟨payload, hpayload⟩ := he.payload n.id
  obtain ⟨r₁, hc₁, hj₁, hr₁, hrun₁⟩ := record_step hclock r
    (f := Record.nodeFailed n.id (.dict payload.document))
    fun t u ht => hr.nodeFailed hid hstart ht payload.document
  obtain ⟨r₂, hc₂, hj₂, hr₂, hrun₂⟩ := record_step hclock
    (r₁.log n.id "error" payload.message [("error_type", .str payload.type)])
    (f := Record.runFinished .failed) fun t u ht =>
      Shows.runFinished (r := r₁.record) (by simpa using hr₁) ht .failed
  refine ⟨r₂.persist, ?_, ?_, ⟨payload, hpayload, ?_⟩, ?_⟩
  · simp only [failNode, hpayload, mapError_ok]
    refine (hrun₁ _).trans ?_
    exact hrun₂ _
  · rw [persist_journal, hj₂]
    exact hj₁
  · rw [persist_own, hc₂, Run.log, Context.own_log _ _ _ _ (by simp [failureField]), hc₁]
  · rw [persist_record]
    simpa [broken] using hr₂

/-- The way of a run through one node. -/
theorem visit_run (hclock : x.ReadsUtc) {n : Node} {done rest : List Node} {r : Run} {s : Session}
    (hfail : ∀ e s', (x.services.dispatch n).run s = .error e s' → e.Reportable)
    (h : r.Reached s done (n :: rest)) (hid : n.id ∉ done.map (·.id)) :
    match (x.services.dispatch n).run s with
    | .ok _ s' => ∃ r', (x.visit n).run r = .ok () r' ∧ r'.Reached s' (done ++ [n]) rest
    | .error e s' => ∃ r', (x.visit n).run r = .error e r'
      ∧ BrokenOff r'.context r'.record r'.world.journal s' done n rest e := by
  have hfresh : n.id ∉ (withStatus .success done).map (·.1) := by
    simpa [withStatus, Function.comp_def] using hid
  obtain ⟨r₁, hc₁, hj₁, ⟨hr₁, hstart⟩, hrun₁⟩ := record_step hclock r
    (f := Record.nodeStarted n.id) fun t u ht => h.record.nodeStarted hfresh ht
  obtain ⟨result, r₂, hrun₂, hr₂, hresult⟩ := attempt_reached (x.services.appends_dispatch n)
    (r := r₁.persist) (s := s) (by rw [persist_own, hc₁, h.context])
    (by rw [persist_journal, hj₁, h.journal])
  rw [persist_record] at hr₂
  rw [← hr₂] at hr₁ hstart
  have hvisit : (x.visit n).run r = _ := hrun₁ _
  rw [hvisit, EStateM.run_bind, EStateM.run_modify]
  dsimp only
  rw [EStateM.run_bind, hrun₂]
  cases hs : (x.services.dispatch n).run s with
  | ok u s' =>
    rw [hs] at hresult
    obtain ⟨rfl, hc, hj⟩ := hresult
    obtain ⟨r₃, hc₃, hj₃, hr₃, hrun₃⟩ := record_step hclock r₂
      (f := Record.nodeFinished n.id (.dict r₂.context.snapshot))
      fun t u ht => hr₁.nodeFinished hfresh hstart ht r₂.context.snapshot
    have hrun := hrun₃ (modify Run.persist)
    refine ⟨r₃.persist, ?_, ?_, ?_, ?_⟩
    · dsimp only
      rw [EStateM.run_bind, EStateM.run_get]
      dsimp only
      rw [hrun]
      rfl
    · rw [persist_own, hc₃, hc]
    · rw [persist_journal, hj₃, hj]
    · rw [persist_record]
      simpa [withStatus, passed] using hr₃
  | error e s' =>
    rw [hs] at hresult
    obtain ⟨rfl, hc, hj⟩ := hresult
    have hend := failNode_run hclock (hfail e s' hs) hr₁ hfresh hstart
    rw [hc, hj] at hend
    exact hend

/-- The way of a run through the nodes that are left. -/
theorem visits_run (hclock : x.ReadsUtc) {done rest : List Node} {r : Run} {s : Session}
    (hfail : x.services.FailsReportably s rest) (h : r.Reached s done rest)
    (hids : ((done ++ rest).map (·.id)).Nodup) :
    (∃ r' s', (x.services.dispatchAll rest).run s = .ok () s'
      ∧ (rest.forM x.visit).run r = .ok () r' ∧ r'.Reached s' (done ++ rest) [])
    ∨ ∃ mid n later e s' r', rest = mid ++ n :: later ∧ x.services.BreaksAt s mid n e s'
      ∧ (rest.forM x.visit).run r = .error e r'
      ∧ BrokenOff r'.context r'.record r'.world.journal s' (done ++ mid) n later e := by
  induction rest generalizing done r s with
  | nil => exact .inl ⟨r, s, rfl, rfl, by simpa using h⟩
  | cons n rest ih =>
    have hid : n.id ∉ done.map (·.id) := by
      rw [List.map_append, List.map_cons] at hids
      exact fun hn => (List.nodup_append.1 hids).2.2 _ hn _ List.mem_cons_self rfl
    have hvisit := visit_run hclock (fun e s' hs =>
      hfail (show [] ++ [n] <+: n :: rest from ⟨rest, rfl⟩) (Services.breaksAt_nil.2 hs)) h hid
    rw [forM_run_cons]
    cases hs : (x.services.dispatch n).run s with
    | error e s' =>
      rw [hs] at hvisit
      obtain ⟨r', hrun, hbroken⟩ := hvisit
      exact .inr ⟨[], n, rest, e, s', r', rfl, Services.breaksAt_nil.2 hs, by rw [hrun],
        by simpa using hbroken⟩
    | ok u s' =>
      rw [hs] at hvisit
      obtain ⟨r', hrun, hreached⟩ := hvisit
      rw [hrun]
      have hall : (x.services.dispatchAll (n :: rest)).run s
          = (x.services.dispatchAll rest).run s' := by
        rw [Services.dispatchAll, forM_run_cons, hs]
        rfl
      have hlater : x.services.FailsReportably s' rest := by
        rintro mid m e t ⟨later, rfl⟩ hm
        exact hfail ⟨later, rfl⟩ (Services.breaksAt_cons.2 ⟨s', hs, hm⟩)
      rcases ih hlater hreached (by simpa using hids) with
        ⟨r'', s'', hs'', hrun'', hr''⟩ | ⟨mid, m, later, e, s'', r'', rfl, hm, hrun'', hr''⟩
      · exact .inl ⟨r'', s'', hall.trans hs'', hrun'', by simpa using hr''⟩
      · exact .inr ⟨n :: mid, m, later, e, s'', r'', rfl, Services.breaksAt_cons.2 ⟨s', hs, hm⟩,
          hrun'', by simpa using hr''⟩

/-- The way of a run from its first event to its last. -/
theorem visitAll_run (hclock : x.ReadsUtc) {order : List Node} {r : Run}
    (hfail : x.services.FailsReportably r.session order) (hc : r.context.own = r.context)
    (hr : r.record.Shows (withStatus .pending order) [])
    (hids : (order.map (·.id)).Nodup) :
    (∃ r' s, (x.services.dispatchAll order).run ⟨r.context, r.world.journal⟩ = .ok () s
      ∧ (x.visitAll order).run r = .ok () r'
      ∧ Completed r'.context r'.record r'.world.journal s order)
    ∨ ∃ done n rest e s r', order = done ++ n :: rest
      ∧ x.services.BreaksAt ⟨r.context, r.world.journal⟩ done n e s
      ∧ (x.visitAll order).run r = .error e r'
      ∧ BrokenOff r'.context r'.record r'.world.journal s done n rest e := by
  obtain ⟨r₁, hc₁, hj₁, hr₁, hrun₁⟩ := record_step hclock r (f := Record.runStarted)
    fun t u ht => hr.runStarted ht
  have hreached : r₁.persist.Reached ⟨r.context, r.world.journal⟩ [] order := by
    refine ⟨?_, ?_, ?_⟩
    · rw [persist_own, hc₁, hc]
    · rw [persist_journal, hj₁]
    · rw [persist_record]
      exact hr₁
  have hall : (x.visitAll order).run r = (do
      order.forM x.visit
      let time ← x.tick
      Run.onRecord (Record.runFinished .success time)
      modify Run.persist).run r₁.persist := hrun₁ _
  rw [hall, EStateM.run_bind]
  rcases visits_run hclock hfail hreached hids with
    ⟨r₂, s, hs, hrun₂, h₂⟩ | ⟨done, n, rest, e, s, r₂, rfl, hs, hrun₂, h₂⟩
  · obtain ⟨r₃, hc₃, hj₃, hr₃, hrun₃⟩ := record_step hclock r₂ (f := Record.runFinished .success)
      fun t u ht => h₂.record.runFinished ht .success
    refine .inl ⟨r₃.persist, s, hs, ?_, ?_, ?_, ?_⟩
    · rw [hrun₂]
      exact hrun₃ _
    · rw [persist_journal, hj₃, h₂.journal]
    · rw [persist_own, hc₃, h₂.context]
    · rw [persist_record]
      simpa [withStatus] using hr₃
  · exact .inr ⟨done, n, rest, e, s, r₂, rfl, hs, by rw [hrun₂], h₂⟩

theorem plan_order_nodup {settings : Settings} {g : Graph} {p : Plan}
    (h : Executor.plan settings g = .ok p) : (p.order.map (·.id)).Nodup := by
  rw [Executor.plan] at h
  split at h
  · obtain ⟨-, -, h⟩ := bind_eq_ok.1 h
    obtain ⟨order, horder, h⟩ := bind_eq_ok.1 h
    cases h
    exact Graph.plan_ids_nodup (mapError_eq_ok.1 horder)
  · obtain ⟨order, horder, h⟩ := bind_eq_ok.1 h
    cases h
    exact Graph.plan_ids_nodup (mapError_eq_ok.1 horder)

/-- The way of a run whose context was opened. -/
theorem execute_run (hclock : x.ReadsUtc) {identity : RunIdentity} {p : Plan} {w : World}
    {context : Context} (hopen : x.openContext identity p = .ok context)
    (hids : (p.order.map (·.id)).Nodup)
    (hfail : x.services.FailsReportably ⟨context, w.journal⟩ p.order) (id : String) :
    ∃ finished w', x.execute identity id p w = (.ok finished, w')
      ∧ ((∃ s, (x.services.dispatchAll p.order).run ⟨context, w.journal⟩ = .ok () s
          ∧ finished.outcome = .ok ()
          ∧ Completed finished.context finished.record w'.journal s p.order)
        ∨ ∃ done n rest e s, p.order = done ++ n :: rest
          ∧ x.services.BreaksAt ⟨context, w.journal⟩ done n e s
          ∧ finished.outcome = .error e
          ∧ BrokenOff finished.context finished.record w'.journal s done n rest e) := by
  have hown : context.own = context := by
    obtain ⟨c, hc, hown⟩ := x.openContext_own identity p
    rw [hopen] at hc
    cases hc
    exact hown
  obtain ⟨t, u, ht, hu⟩ := hclock w.ticks
  obtain ⟨record, hcreate, hshows⟩ := create_shows (p.order.map fun n => (n.id, n.type)) identity
    x.configHash (by simpa [Function.comp_def] using hids) hu
  have hvisit := visitAll_run hclock (r := ⟨id, { w with ticks := w.ticks + 1 }, context, record⟩)
    hfail hown (by simpa [withStatus, Function.comp_def] using hshows) hids
  simp only [execute, hopen, mapError_ok, ht, hcreate]
  rcases hvisit with ⟨r, s, hs, hrun, h⟩ | ⟨done, n, rest, e, s, r, horder, hs, hrun, h⟩
  · rw [hrun]
    exact ⟨_, _, rfl, .inl ⟨s, hs, rfl, h⟩⟩
  · rw [hrun]
    exact ⟨_, _, rfl, .inr ⟨done, n, rest, e, s, horder, hs, rfl, h⟩⟩

/-- A run that was planned goes to the first node that fails, or through all of them.  Without a
failure it returns, and every node has succeeded; otherwise it ends in the failure of that node, the
nodes before it have succeeded and those after it are pending.  Either way the run has done to the
context and to the triggers what the nodes up to there do one after another, and no more. -/
theorem run_failFast (x : Executor) (pipelineId userId projectId : String) (w : World) (p : Plan)
    (hclock : x.ReadsUtc) (hb : x.services.buildTrigger.Reportable)
    (hd : x.services.deployTrigger.Reportable)
    (hp : loadGraph w.store pipelineId >>= plan x.services.settings = .ok p) :
    ∃ context finished w',
      x.openContext ⟨.str (x.executionId w.issued), .str pipelineId, .str userId, .str projectId⟩ p
        = .ok context
      ∧ x.run pipelineId userId projectId w = (.ok finished, w')
      ∧ ((∃ s, (x.services.dispatchAll p.order).run ⟨context, w.journal⟩ = .ok () s
          ∧ finished.outcome = .ok ()
          ∧ Completed finished.context finished.record w'.journal s p.order)
        ∨ ∃ done n rest e s, p.order = done ++ n :: rest
          ∧ x.services.BreaksAt ⟨context, w.journal⟩ done n e s
          ∧ finished.outcome = .error e
          ∧ BrokenOff finished.context finished.record w'.journal s done n rest e) := by
  obtain ⟨g, -, hplan⟩ := bind_eq_ok.1 hp
  generalize hid : RunIdentity.mk _ _ _ _ = identity
  obtain ⟨context, hopen, -⟩ := x.openContext_own identity p
  obtain ⟨finished, w', hrun, hend⟩ := execute_run hclock (w := { w with issued := w.issued + 1 })
    hopen (plan_order_nodup hplan)
    (fun _ n e _ _ ⟨s, _, hn⟩ => x.services.raises_dispatch hb hd n s e _ hn)
    (x.executionId w.issued)
  exact ⟨context, finished, w', hopen, by simp only [run, hp, hid, hrun], hend⟩

/-- The plan of `chainStore`. -/
def chainPlan : Plan :=
  let nodes : List Node := [⟨"a", "start", []⟩, ⟨"b", "build_vite", []⟩, ⟨"c", "end", []⟩]
  ⟨⟨nodes, [⟨"a->b", "a", "b"⟩, ⟨"b->c", "b", "c"⟩]⟩, [], nodes⟩

theorem run_failFast_chain : ∃ finished w',
    unableToBuild.run "chain" "user" "project" (.start (chainStore fun _ => true))
      = (.ok finished, w')
    ∧ finished.outcome = .error (.fault ⟨"RuntimeError", "no capacity", false, .null, [], .null⟩)
    ∧ finished.record.status = .ok (.str "failed") := by
  obtain ⟨context, finished, w', hopen, hrun, hend⟩ := run_failFast unableToBuild "chain" "user"
    "project" (.start (chainStore fun _ => true)) chainPlan (fun _ => ⟨_, _, rfl, rfl⟩)
    (fun _ _ e he r hr => by cases he; cases hr) (fun _ _ e he => by cases he) rfl
  cases hopen
  have hfail : ∃ s, (unableToBuild.services.dispatchAll chainPlan.order).run
      ⟨.start ⟨.str "0", .str "chain", .str "user", .str "project"⟩ ⟨0, some 0⟩, .empty⟩
      = .error (.fault ⟨"RuntimeError", "no capacity", false, .null, [], .null⟩) s := ⟨_, rfl⟩
  obtain ⟨s, hs⟩ := hfail
  rcases hend with ⟨s', hs', -⟩ | ⟨done, n, rest, e, s', horder, hbreaks, houtcome, hbroken⟩
  · cases hs'.symm.trans hs
  · have hall := hbreaks.dispatchAll rest
    rw [← horder] at hall
    cases hall.symm.trans hs
    exact ⟨finished, w', hrun, houtcome, hbroken.record.status⟩

end Executor

end BuildPipeline
