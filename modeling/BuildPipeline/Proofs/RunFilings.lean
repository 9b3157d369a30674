import BuildPipeline.Proofs.FailFast
import BuildPipeline.Proofs.RecordSteps

/-!
The documents of a run. A run files its record before the first node, at the start and at the end of
each node, and at its own end. Until then every document is of a run that goes on, and it shows how
many nodes have succeeded and whether the next one has been started.
-/

namespace BuildPipeline

open BuildPipeline.Time Record

/-- The nodes of a run between two of them. -/
def between (done rest : List Node) : List (String × NodeStatus) :=
  withStatus .success done ++ withStatus .pending rest

/-- The nodes of a run at one of them. -/
def during (done : List Node) (n : Node) (status : NodeStatus) (rest : List Node) :
    List (String × NodeStatus) :=
  withStatus .success done ++ (n.id, status) :: withStatus .pending rest

/-- How the nodes of a plan stand after a number of documents: each node has two of them, and the
first document comes before all nodes. -/
def progress (order : List Node) (i : Nat) : List (String × NodeStatus) :=
  withStatus .success (order.take (i / 2)) ++ withStatus .running ((order.drop (i / 2)).take (i % 2))
    ++ withStatus .pending (order.drop ((i + 1) / 2))

section Progress

variable {done done' rest rest' : List Node} {n n' : Node}

theorem progress_between (done rest : List Node) :
    progress (done ++ rest) (2 * done.length) = between done rest := by
  have hhalf : (2 * done.length + 1) / 2 = done.length := by omega
  simp [progress, between, hhalf, withStatus]

theorem progress_during (done : List Node) (n : Node) (rest : List Node) :
    progress (done ++ n :: rest) (2 * done.length + 1) = during done n .running rest := by
  have hhalf : (2 * done.length + 1) / 2 = done.length := by omega
  have hnext : (2 * done.length + 1 + 1) / 2 = done.length + 1 := by omega
  simp [progress, during, hhalf, hnext, withStatus, Nat.add_mod]

/-- Nodes in the order of a plan: some have succeeded, then at most one is running or has failed, and
the rest are pending. -/
def InSequence (order : List Node) (nodes : List (String × NodeStatus)) : Prop :=
  ∃ (done now rest : List Node) (status : NodeStatus), order = done ++ now ++ rest
    ∧ now.length ≤ 1 ∧ (status = .running ∨ status = .failed)
    ∧ nodes = withStatus .success done ++ withStatus status now ++ withStatus .pending rest

theorem inSequence_progress (order : List Node) (i : Nat) : InSequence order (progress order i) := by
  have hnext : (i + 1) / 2 = i / 2 + i % 2 := by omega
  have hsplit : order.take (i / 2) ++ (order.drop (i / 2)).take (i % 2)
      ++ order.drop ((i + 1) / 2) = order := by
    rw [List.append_assoc, hnext, ← List.drop_drop, List.take_append_drop, List.take_append_drop]
  refine ⟨_, _, _, .running, hsplit.symm, ?_, .inl rfl, rfl⟩
  exact (List.length_take_le _ _).trans (by omega)

theorem inSequence_success (order : List Node) : InSequence order (withStatus .success order) :=
  ⟨order, [], [], .running, by simp, by simp, .inl rfl, by simp [withStatus]⟩

theorem inSequence_during (done : List Node) (n : Node) (rest : List Node) :
    InSequence (done ++ n :: rest) (during done n .failed rest) :=
  ⟨done, [n], rest, .failed, by simp, le_rfl, .inr rfl, by simp [during, withStatus]⟩

/-- The statuses of a run that failed tell at which node. -/
theorem eq_of_failed_statuses (hsplit : done ++ n :: rest = done' ++ n' :: rest')
    (h : (during done n .failed rest).map (fun n => Value.str n.2.name)
      = (during done' n' .failed rest').map fun n => .str n.2.name) :
    done = done' ∧ n = n' := by
  have hne : Value.str NodeStatus.success.name ≠ .str NodeStatus.failed.name := by decide
  induction done generalizing done' with
  | nil =>
    cases done' with
    | nil => exact ⟨rfl, (List.cons.inj hsplit).1⟩
    | cons m' done' => exact absurd (List.cons.inj h).1.symm hne
  | cons m done ih =>
    cases done' with
    | nil => exact absurd (List.cons.inj h).1 hne
    | cons m' done' =>
      obtain ⟨rfl, htail⟩ := List.cons.inj hsplit
      obtain ⟨rfl, rfl⟩ := ih htail (List.cons.inj h).2
      exact ⟨rfl, rfl⟩

end Progress

/-- Readings of the clock have a date in UTC, and triggers raise nothing that cannot be written
down. -/
structure Executor.Dependable (x : Executor) : Prop where
  clock : x.ReadsUtc
  build : x.services.buildTrigger.Reportable
  deploy : x.services.deployTrigger.Reportable

/-- Where a run starts from: the world, its identifier, what its record says of the whole, and the
nodes that it is to visit. -/
structure Outset where
  world : World
  id : String
  execution : Dict
  order : List Node

namespace Outset

/-- Documents are all that a run has filed. -/
structure Filed (o : Outset) (docs : List RunDocument) (r : Run) : Prop where
  id : r.id = o.id
  filed : r.world.filed = o.world.filed ++ docs.map (Filing.mk executionsCollection o.id)

/-- A record says of the whole what it said at first, and shows some nodes. -/
structure Shown (o : Outset) (nodes : List (String × NodeStatus)) (r : Record) : Prop where
  execution : r.execution = o.execution
  shows : ∃ headings, r.Shows nodes headings

/-- Documents of a run that goes on. -/
def Ongoing (o : Outset) (docs : List RunDocument) : Prop :=
  ∀ i d, docs[i]? = some d → o.Shown (progress o.order i) d.record

/-- A run with a record of some kind that has filed `n` documents. -/
structure Stage (o : Outset) (S : Record → Prop) (n : Nat) (r : Run) : Prop where
  record : S r.record
  filed : ∃ docs, docs.length = n ∧ o.Ongoing docs ∧ o.Filed docs r

/-- A record of a run that is over. -/
structure Over (o : Outset) (verdict : RunStatus) (nodes : List (String × NodeStatus)) (r : Record) :
    Prop where
  execution : ∃ time : String, r.execution
    = Dict.set (Dict.set o.execution "status" (.str verdict.name)) "finished_at" (.str time)
  shows : ∃ headings, r.Shows nodes headings

/-- A run that is over and has filed its record after `n` other documents. -/
structure Closed (o : Outset) (verdict : RunStatus) (nodes : List (String × NodeStatus)) (n : Nat)
    (r : Run) : Prop where
  record : o.Over verdict nodes r.record
  filed : ∃ docs d, docs.length = n ∧ o.Ongoing docs ∧ o.Filed (docs ++ [d]) r ∧ d.record = r.record

/-- A run that was broken off by something that is not dependable. -/
structure Interrupted (o : Outset) (x : Executor) (r : Run) : Prop where
  cause : ¬x.Dependable
  filed : ∃ docs, o.Ongoing docs ∧ o.Filed docs r

/-- A run that has ended at a node that failed, or was broken off. -/
def Ended (o : Outset) (x : Executor) (r : Run) : Prop :=
  (∃ done n rest, o.order = done ++ n :: rest
    ∧ o.Closed .failed (during done n .failed rest) (2 * done.length + 2) r)
  ∨ o.Interrupted x r

variable {o : Outset} {x : Executor} {S T : Record → Prop} {docs : List RunDocument} {i : Nat}
  {nodes : List (String × NodeStatus)} {r : Run} {record : Record} {t u : Moment} {α : Type}
  {k : RunStep α} {R : α → Run → Prop}

section Filing

theorem Filed.persist (h : o.Filed docs r) : o.Filed (docs ++ [r.document]) r.persist where
  id := by rw [Run.persist_eq, h.id]
  filed := by
    rw [Run.persist_eq, h.filed, h.id, List.map_append, List.append_assoc]
    rfl

theorem Ongoing.concat (h : o.Ongoing docs) {d : RunDocument}
    (hd : o.Shown (progress o.order docs.length) d.record) : o.Ongoing (docs ++ [d]) := by
  intro i d' hi
  rw [List.getElem?_append] at hi
  split at hi
  case isTrue => exact h i d' hi
  case isFalse hlength =>
    obtain ⟨hlt, hd'⟩ := List.getElem?_eq_some_iff.1 hi
    obtain rfl : i = docs.length := by
      simp only [List.length_singleton] at hlt
      omega
    simp only [Nat.sub_self, List.getElem_cons_zero] at hd'
    exact hd' ▸ hd

theorem Stage.persist (h : o.Stage S i r) (hS : S r.record → o.Shown (progress o.order i) r.record) :
    o.Stage S (i + 1) r.persist := by
  obtain ⟨docs, rfl, hongoing, hfiled⟩ := h.filed
  refine ⟨by rw [Run.persist_record]; exact h.record, docs ++ [r.document], by simp, ?_,
    hfiled.persist⟩
  exact hongoing.concat (hS h.record)

theorem Stage.close {verdict : RunStatus} (h : o.Stage (o.Over verdict nodes) i r) :
    o.Closed verdict nodes i r.persist := by
  obtain ⟨docs, hlength, hongoing, hfiled⟩ := h.filed
  refine ⟨by rw [Run.persist_record]; exact h.record, docs, r.document, hlength, hongoing,
    hfiled.persist, ?_⟩
  rw [Run.persist_record]
  rfl

theorem Stage.interrupted (h : o.Stage S i r) (hx : ¬x.Dependable) : o.Interrupted x r := by
  obtain ⟨docs, -, hfiled⟩ := h.filed
  exact ⟨hx, docs, hfiled⟩

/-- What a run has filed is all the same to its record, its clock, its context and its journal. -/
theorem Stage.congr (h : o.Stage S i r) {r' : Run} (hS : T r'.record) (hid : r'.id = r.id)
    (hfiled : r'.world.filed = r.world.filed) : o.Stage T i r' := by
  obtain ⟨docs, hlength, hongoing, hdocs⟩ := h.filed
  exact ⟨hS, docs, hlength, hongoing, hid.trans hdocs.id, hfiled.trans hdocs.filed⟩

end Filing

section Steps

open Run Executor

theorem onRecord_run_error {f : RecordStep Unit} {e : Failure}
    (h : f.run r.record = .error e record) :
    (onRecord f).run r = .error e { r with record := record } := by
  simp only [onRecord, EStateM.run_bind, EStateM.run_get, h]
  rfl

/-- A step on the record at the time of the clock leads from one kind of record to another, unless it
is broken off. -/
theorem leads_record {f : Moment → RecordStep Unit}
    (hf : ∀ record t u, S record → t.utc = .ok u →
      ∃ record', (f t).run record = .ok () record' ∧ T record')
    (hdated : Dated f) (hk : Leads (o.Stage T i) k R (o.Ended x)) :
    Leads (o.Stage S i) (x.tick >>= fun t => onRecord (f t) >>= fun _ => k) R (o.Ended x) := by
  intro r h
  let ticked : Run := { r with world := { r.world with ticks := r.world.ticks + 1 } }
  have hlate (hclock : ¬x.ReadsUtc) (record : Record) :
      o.Ended x { ticked with record := record } := by
    have hstage : o.Stage (fun _ => True) i { ticked with record := record } :=
      h.congr trivial rfl rfl
    exact .inr (hstage.interrupted fun hx => hclock hx.clock)
  have htick : x.tick.run r = match x.clock r.world.ticks with
      | .ok t => .ok t ticked
      | .error e => .error e ticked := by
    simp only [tick, EStateM.run_bind, EStateM.run_get, EStateM.run_modify]
    cases x.clock r.world.ticks <;> rfl
  rw [EStateM.run_bind, htick]
  cases hclock : x.clock r.world.ticks with
  | error e =>
    refine hlate (fun hx => ?_) r.record
    obtain ⟨t, u, ht, -⟩ := hx r.world.ticks
    cases hclock.symm.trans ht
  | ok t =>
    dsimp only
    rw [EStateM.run_bind]
    cases hutc : t.utc with
    | error e =>
      obtain ⟨e', record, hrun⟩ := hdated t e r.record hutc
      rw [onRecord_run_error (r := ticked) hrun]
      refine hlate (fun hx => ?_) record
      obtain ⟨t', u, ht, hu⟩ := hx r.world.ticks
      cases hclock.symm.trans ht
      cases hutc.symm.trans hu
    | ok u =>
      obtain ⟨record, hrun, hT⟩ := hf r.record t u h.record hutc
      rw [onRecord_run ticked hrun]
      exact hk _ (h.congr hT rfl rfl)

theorem leads_persist (hS : ∀ record, S record → o.Shown (progress o.order i) record) :
    Leads (o.Stage S i) (modify Run.persist) (fun _ => o.Stage S (i + 1)) (o.Ended x) :=
  leads_modify fun r h => h.persist (hS r.record)

/-- The last step on the record, and the last document. -/
theorem leads_finish {verdict : RunStatus} (hk : Leads (o.Closed verdict nodes i) k R (o.Ended x)) :
    Leads (o.Stage (o.Shown nodes) i)
      (x.tick >>= fun t => onRecord (runFinished verdict t) >>= fun _ =>
        modify Run.persist >>= fun _ => k) R (o.Ended x) := by
  refine leads_record (T := o.Over verdict nodes) (fun record t u h ht => ?_)
    (dated_runFinished verdict) (leads_bind (leads_modify fun r h => h.close) fun _ => hk)
  obtain ⟨headings, hnodes, hheadings⟩ := h.shows
  refine ⟨_, runFinished_run ht, ⟨u.iso, ?_⟩, _, hnodes, rfl⟩
  rw [h.execution]

end Steps

section Visits

open Run Executor

variable {done rest : List Node} {n : Node}

theorem Shown.step (h : o.Shown nodes record) {f : RecordStep Unit}
    (hkeeps : Keeps (·.execution = o.execution) f) {record' : Record}
    (hrun : f.run record = .ok () record') {nodes' : List (String × NodeStatus)}
    {headings : List (Option Value × Option Value)} (hshows : record'.Shows nodes' headings) :
    o.Shown nodes' record' := by
  have hexecution := hkeeps record h.execution
  rw [hrun] at hexecution
  exact ⟨hexecution, headings, hshows⟩

theorem leads_failNode {e : Failure} {R : Unit → Run → Prop} (horder : o.order = done ++ n :: rest)
    (hid : n.id ∉ (withStatus .success done).map (·.1)) (he : x.Dependable → e.Reportable) :
    Leads (o.Stage (fun r => o.Shown (during done n .running rest) r ∧ r.Started n.id)
      (2 * done.length + 2)) (x.failNode n e) R (o.Ended x) := by
  rw [failNode]
  cases hpayload : e.payload n.id with
  | error s =>
    refine fun r h => .inr (h.interrupted fun hx => ?_)
    obtain ⟨payload, hok⟩ := (he hx).payload n.id
    cases hpayload.symm.trans hok
  | ok payload =>
    refine leads_record (T := o.Shown (during done n .failed rest)) (fun record t u h ht => ?_)
      (dated_nodeFailed n.id _) ?_
    · obtain ⟨hshown, hstart⟩ := h
      obtain ⟨headings, hshows⟩ := hshown.shows
      obtain ⟨record', hrun, hshows'⟩ := hshows.nodeFailed hid hstart ht payload.document
      exact ⟨record', hrun, hshown.step (execution_nodeFailed _ _ t) hrun hshows'⟩
    · refine leads_bind (Q := fun _ => o.Stage (o.Shown (during done n .failed rest))
        (2 * done.length + 2)) (leads_modify fun r h => h.congr h.record rfl rfl) fun _ => ?_
      refine leads_finish fun r h => ?_
      exact .inl ⟨done, n, rest, horder, h⟩

theorem leads_dispatch (x : Executor) (n : Node) :
    Leads (o.Stage S i) (attempt (x.services.dispatch n))
      (fun result r => o.Stage S i r ∧ ∀ e, result = .error e → x.Dependable → e.Reportable)
      (o.Ended x) := by
  intro r h
  rw [attempt_run]
  cases hrun : (x.services.dispatch n).run r.session with
  | ok u s => exact ⟨h.congr h.record rfl rfl, nofun⟩
  | error e s =>
    refine ⟨h.congr h.record rfl rfl, fun e' he' hx => ?_⟩
    cases he'
    exact x.services.raises_dispatch hx.build hx.deploy n r.session e s hrun

/-- The way of a run through one node: two documents are filed, unless the node fails. -/
theorem leads_visit (horder : o.order = done ++ n :: rest)
    (hid : n.id ∉ (withStatus .success done).map (·.1)) :
    Leads (o.Stage (o.Shown (between done (n :: rest))) (2 * done.length + 1)) (x.visit n)
      (fun _ => o.Stage (o.Shown (between (done ++ [n]) rest)) (2 * (done ++ [n]).length + 1))
      (o.Ended x) := by
  have hduring : progress o.order (2 * done.length + 1) = during done n .running rest := by
    rw [horder, progress_during]
  refine leads_record (T := fun r => o.Shown (during done n .running rest) r ∧ r.Started n.id)
    (fun record t u h ht => ?_) (dated_nodeStarted n.id) ?_
  · obtain ⟨headings, hshows⟩ := h.shows
    obtain ⟨record', hrun, hshows', hstart⟩ := hshows.nodeStarted hid ht
    exact ⟨record', hrun, h.step (execution_nodeStarted _ t) hrun hshows', hstart⟩
  refine leads_bind (leads_persist fun record h => hduring ▸ h.1) fun _ => ?_
  refine leads_bind (leads_dispatch x n) fun result => ?_
  cases result with
  | error e => exact fun r h => leads_failNode horder hid (h.2 e rfl) r h.1
  | ok u =>
    refine leads_get fun r r' h => ?_
    refine leads_record (T := o.Shown (between (done ++ [n]) rest)) (fun record t u h ht => ?_)
      (dated_nodeFinished n.id _) ?_ r' h.1
    · obtain ⟨hshown, hstart⟩ := h
      obtain ⟨headings, hshows⟩ := hshown.shows
      obtain ⟨record', hrun, hshows'⟩ := hshows.nodeFinished hid hstart ht r.context.snapshot
      have hnodes : withStatus .success done ++ (n.id, .success) :: withStatus .pending rest
          = between (done ++ [n]) rest := by simp [between, withStatus]
      exact ⟨record', hrun, hshown.step (execution_nodeFinished _ _ t) hrun (hnodes ▸ hshows')⟩
    · have hlength : 2 * (done ++ [n]).length = 2 * done.length + 2 := by simp [Nat.mul_add]
      have hafter : progress o.order (2 * done.length + 2) = between (done ++ [n]) rest := by
        rw [horder, ← hlength, List.append_cons, progress_between]
      rw [hlength]
      exact leads_persist fun record h => hafter ▸ h

/-- The way of a run through the nodes that are left. -/
theorem leads_visits (horder : o.order = done ++ rest) (hids : ((done ++ rest).map (·.id)).Nodup) :
    Leads (o.Stage (o.Shown (between done rest)) (2 * done.length + 1)) (rest.forM x.visit)
      (fun _ => o.Stage (o.Shown (between (done ++ rest) [])) (2 * (done ++ rest).length + 1))
      (o.Ended x) := by
  induction rest generalizing done with
  | nil =>
    rw [List.append_nil]
    exact fun _ h => h
  | cons n rest ih =>
    have hid : n.id ∉ (withStatus .success done).map (·.1) := by
      rw [List.map_append, List.map_cons] at hids
      simpa [withStatus, Function.comp_def] using
        fun hn => (List.nodup_append.1 hids).2.2 _ hn _ List.mem_cons_self rfl
    rw [List.append_cons] at horder hids ⊢
    exact leads_bind (leads_visit (by rw [horder]; simp) hid) fun _ => ih horder hids

/-- The way of a run from its first document to its last. -/
theorem leads_visitAll (hids : (o.order.map (·.id)).Nodup) :
    Leads (o.Stage (o.Shown (between [] o.order)) 0) (x.visitAll o.order)
      (fun _ => o.Closed .success (withStatus .success o.order) (2 * o.order.length + 1))
      (o.Ended x) := by
  refine leads_record (T := o.Shown (between [] o.order)) (fun record t u h ht => ?_)
    dated_runStarted ?_
  · obtain ⟨headings, hshows⟩ := h.shows
    obtain ⟨record', hrun, hshows'⟩ := hshows.runStarted ht
    exact ⟨record', hrun, h.step (execution_runStarted t) hrun hshows'⟩
  refine leads_bind (leads_persist fun record h => ?_) fun _ => ?_
  · exact (progress_between [] o.order) ▸ h
  refine leads_bind (leads_visits (List.nil_append o.order).symm hids) fun _ => ?_
  have hall : between ([] ++ o.order) [] = withStatus .success o.order := by
    simp [between, withStatus]
  rw [hall]
  exact leads_finish (k := pure ()) fun r h => h

end Visits

end Outset

/-- A record of the run with an identifier, as far as the run has come: its status, an end unless it
is running, and its nodes in order with their statuses. -/
structure Record.Tells (r : Record) (id : String) (verdict : RunStatus)
    (nodes : List (String × NodeStatus)) : Prop where
  executionId : r.executionId = .ok (.str id)
  status : r.status = .ok (.str verdict.name)
  finishedAt : ∃ v, Dict.field r.execution "finished_at" = some v
    ∧ (v = .null ↔ verdict = .running)
  keys : r.nodes.keys = nodes.map (·.1)
  statuses : r.statuses = .ok (nodes.map fun n => .str n.2.name)

namespace Outset

/-- The record says of the whole what a new record does. -/
structure Fresh (o : Outset) : Prop where
  executionId : Dict.field o.execution "execution_id" = some (.str o.id)
  status : Dict.field o.execution "status" = some (.str RunStatus.running.name)
  finishedAt : Dict.field o.execution "finished_at" = some .null

variable {o : Outset} {nodes : List (String × NodeStatus)} {r : Record} {identity : RunIdentity}
  {id : String} {t : Moment}

theorem Fresh.of_create (hidentity : identity.executionId = .str id)
    {entries : List (String × String)} {hash : Value} (h : create identity entries t hash = .ok r)
    (w : World) (order : List Node) : Fresh ⟨w, id, r.execution, order⟩ := by
  obtain ⟨time, -, hrecord⟩ := bind_eq_ok.1 h
  cases hrecord
  refine ⟨?_, ?_, ?_⟩ <;> simp [Dict.of, Dict.field_cons, hidentity]

theorem Fresh.tells (ho : o.Fresh) (h : o.Shown nodes r) : r.Tells o.id .running nodes := by
  obtain ⟨hexecution, headings, hshows⟩ := h
  refine ⟨?_, ?_, ⟨.null, ?_, iff_of_true rfl rfl⟩, hshows.keys, hshows.statuses⟩
  · rw [Record.executionId, hexecution, Value.item, ho.executionId]
  · rw [Record.status, hexecution, Value.item, ho.status]
  · rw [hexecution, ho.finishedAt]

theorem Fresh.tells_over (ho : o.Fresh) {verdict : RunStatus} (hverdict : verdict ≠ .running)
    (h : o.Over verdict nodes r) : r.Tells o.id verdict nodes := by
  obtain ⟨⟨time, hexecution⟩, headings, hshows⟩ := h
  refine ⟨?_, ?_, ⟨.str time, ?_, iff_of_false nofun hverdict⟩, hshows.keys, hshows.statuses⟩
  · simp [Record.executionId, hexecution, Value.item, Dict.field_set, ho.executionId]
  · simp [Record.status, hexecution, Value.item, Dict.field_set]
  · simp [hexecution, Dict.field_set]

theorem Closed.docs {verdict : RunStatus} {n : Nat} {run : Run} (h : o.Closed verdict nodes n run)
    (ho : o.Fresh) (hverdict : verdict ≠ .running) :
    ∃ docs, docs.length = n + 1 ∧ o.Filed docs run
      ∧ (∀ i d, docs[i]? = some d → i + 1 < docs.length →
        d.record.Tells o.id .running (progress o.order i))
      ∧ docs.getLast?.map (·.record) = some run.record ∧ run.record.Tells o.id verdict nodes := by
  obtain ⟨hover, docs, d, rfl, hongoing, hfiled, hd⟩ := h
  refine ⟨docs ++ [d], by simp, hfiled, fun i d' hi hlt => ?_, by simp [hd],
    ho.tells_over hverdict hover⟩
  rw [List.length_append, List.length_singleton, Nat.add_lt_add_iff_right] at hlt
  rw [List.getElem?_append_left hlt] at hi
  exact ho.tells (hongoing i d' hi)

end Outset

/-- The documents of a run that starts with a session as it ends: after all its nodes, at a node that
fails, or where it is broken off. -/
inductive Executor.Ending (x : Executor) (start : Session) (id : String) (order : List Node)
    (docs : List RunDocument) : Except Failure FinishedRun → Prop
  | unrecorded {e : Failure} (cause : ¬x.Dependable) (none : docs = []) :
    Executor.Ending x start id order docs (.error e)
  | completed {f : FinishedRun} (outcome : f.outcome = .ok ())
    (count : docs.length = 2 * order.length + 2)
    (last : docs.getLast?.map (·.record) = some f.record)
    (record : f.record.Tells id .success (withStatus .success order))
    (steps : x.Dependable → ∃ s, (x.services.dispatchAll order).run start = .ok () s) :
    Executor.Ending x start id order docs (.ok f)
  | failed {f : FinishedRun} {e : Failure} {done : List Node} {n : Node} {rest : List Node}
    (outcome : f.outcome = .error e) (split : order = done ++ n :: rest)
    (count : docs.length = 2 * done.length + 3)
    (last : docs.getLast?.map (·.record) = some f.record)
    (record : f.record.Tells id .failed (during done n .failed rest))
    (steps : x.Dependable → ∃ s, x.services.BreaksAt start done n e s) :
    Executor.Ending x start id order docs (.ok f)
  | interrupted {f : FinishedRun} {e : Failure} (outcome : f.outcome = .error e)
    (cause : ¬x.Dependable)
    (records : ∀ (i : Nat) (d : RunDocument), docs[i]? = some d →
      d.record.Tells id .running (progress order i)) :
    Executor.Ending x start id order docs (.ok f)

/-- Every document of a run shows its nodes in sequence. -/
theorem Executor.Ending.inSequence {x : Executor} {start : Session} {id : String}
    {order : List Node} {docs : List RunDocument} {result : Except Failure FinishedRun}
    (h : x.Ending start id order docs result)
    (hongoing : ∀ i d, docs[i]? = some d → i + 1 < docs.length →
      d.record.Tells id .running (progress order i)) :
    ∀ d ∈ docs, ∃ verdict nodes, d.record.Tells id verdict nodes ∧ InSequence order nodes := by
  intro d hd
  obtain ⟨i, hi⟩ := List.getElem?_of_mem hd
  have hlast {f : FinishedRun} (hlt : ¬i + 1 < docs.length)
      (hlast : docs.getLast?.map (·.record) = some f.record) : d.record = f.record := by
    obtain ⟨hlength, -⟩ := List.getElem?_eq_some_iff.1 hi
    rw [List.getLast?_eq_getElem?, show docs.length - 1 = i by omega, hi] at hlast
    exact Option.some.inj hlast
  by_cases hlt : i + 1 < docs.length
  · exact ⟨_, _, hongoing i d hi hlt, inSequence_progress order i⟩
  · cases h with
    | unrecorded _ hnone => exact absurd hd (hnone ▸ List.not_mem_nil)
    | completed _ _ hrecord htells _ =>
      exact ⟨_, _, hlast hlt hrecord ▸ htells, inSequence_success order⟩
    | failed _ horder _ hrecord htells _ =>
      exact ⟨_, _, hlast hlt hrecord ▸ htells, horder ▸ inSequence_during _ _ _⟩
    | interrupted _ _ htells => exact ⟨_, _, htells i d hi, inSequence_progress order i⟩

/-- What becomes of a run that has visited its nodes. -/
def Run.finished : EStateM.Result Failure Run Unit → Except Failure FinishedRun × World
  | .ok _ r => (.ok ⟨.ok (), r.id, r.context, r.record⟩, r.world)
  | .error e r => (.ok ⟨.error e, r.id, r.context, r.record⟩, r.world)

namespace Executor

open Outset

variable {x : Executor} {identity : RunIdentity} {id : String} {p : Plan} {w : World}
  {context : Context} {f : FinishedRun}

/-- A run of a plan has no record, for want of a time, or it visits the nodes. -/
theorem execute_cases (x : Executor) (identity : RunIdentity) (id : String) {p : Plan}
    (hids : (p.order.map (·.id)).Nodup) (w : World) :
    ∃ context, x.openContext identity p = .ok context
      ∧ ((∃ e, x.execute identity id p w = (.error e, { w with ticks := w.ticks + 1 })
          ∧ ¬x.ReadsUtc)
        ∨ ∃ t record, create identity (p.order.map fun n => (n.id, n.type)) t x.configHash
            = .ok record
          ∧ record.Shows (withStatus .pending p.order) []
          ∧ x.execute identity id p w = Run.finished ((x.visitAll p.order).run
            ⟨id, { w with ticks := w.ticks + 1 }, context, record⟩)) := by
  obtain ⟨context, hopen, -⟩ := x.openContext_own identity p
  have hentries : ((p.order.map fun n => (n.id, n.type)).map (·.1)).Nodup := by
    simpa [Function.comp_def] using hids
  refine ⟨context, hopen, ?_⟩
  simp only [execute, hopen, mapError_ok]
  cases hclock : x.clock w.ticks with
  | error e =>
    refine .inl ⟨e, rfl, fun hx => ?_⟩
    obtain ⟨t, u, ht, -⟩ := hx w.ticks
    cases hclock.symm.trans ht
  | ok t =>
    dsimp only
    cases hcreate : create identity (p.order.map fun n => (n.id, n.type)) t x.configHash with
    | error e =>
      refine .inl ⟨e, rfl, fun hx => ?_⟩
      obtain ⟨t', u, ht, hu⟩ := hx w.ticks
      cases hclock.symm.trans ht
      obtain ⟨record, hrecord, -⟩ := create_shows _ identity x.configHash hentries hu
      cases hcreate.symm.trans hrecord
    | ok record =>
      obtain ⟨time, htime, -⟩ := bind_eq_ok.1 hcreate
      obtain ⟨u, hu, -⟩ := bind_eq_ok.1 htime
      obtain ⟨record', hrecord, hshows⟩ :=
        create_shows _ identity x.configHash hentries (mapError_eq_ok.1 hu)
      cases hcreate.symm.trans hrecord
      refine .inr ⟨t, record, hcreate, ?_, ?_⟩
      · simpa [withStatus, Function.comp_def] using hshows
      · dsimp only
        cases (x.visitAll p.order).run ⟨id, { w with ticks := w.ticks + 1 }, context, record⟩ <;> rfl

section Dispatched

variable (hx : x.Dependable) (hopen : x.openContext identity p = .ok context)
  (hids : (p.order.map (·.id)).Nodup) (hrun : (x.execute identity id p w).1 = .ok f)
include hx hopen hids hrun

/-- What the steps at the nodes come to, read off a run that is over. -/
theorem execute_dispatched :
    ((∃ s, (x.services.dispatchAll p.order).run ⟨context, w.journal⟩ = .ok () s)
        ∧ f.outcome = .ok ())
      ∨ ∃ done n rest e s, p.order = done ++ n :: rest
        ∧ x.services.BreaksAt ⟨context, w.journal⟩ done n e s ∧ f.outcome = .error e
        ∧ f.record.statuses = .ok ((during done n .failed rest).map fun n => .str n.2.name) := by
  obtain ⟨f', w', hrun', hend⟩ := execute_run hx.clock (w := w) hopen hids
    (fun _ n e _ _ ⟨s, _, hn⟩ => x.services.raises_dispatch hx.build hx.deploy n s e _ hn) id
  rw [hrun'] at hrun
  cases hrun
  rcases hend with ⟨s, hs, houtcome, -⟩ | ⟨done, n, rest, e, s, hsplit, hs, houtcome, hbroken⟩
  · exact .inl ⟨⟨s, hs⟩, houtcome⟩
  · exact .inr ⟨done, n, rest, e, s, hsplit, hs, houtcome, hbroken.record.statuses⟩

theorem dispatchAll_of_outcome (houtcome : f.outcome = .ok ()) :
    ∃ s, (x.services.dispatchAll p.order).run ⟨context, w.journal⟩ = .ok () s := by
  rcases execute_dispatched hx hopen hids hrun with ⟨hs, -⟩ | ⟨_, _, _, _, _, -, -, herror, -⟩
  · exact hs
  · cases houtcome.symm.trans herror

theorem breaksAt_of_outcome {e : Failure} {done rest : List Node} {n : Node}
    (houtcome : f.outcome = .error e) (hsplit : p.order = done ++ n :: rest)
    (htells : f.record.Tells id .failed (during done n .failed rest)) :
    ∃ s, x.services.BreaksAt ⟨context, w.journal⟩ done n e s := by
  rcases execute_dispatched hx hopen hids hrun with
    ⟨-, hok⟩ | ⟨done', n', rest', e', s, hsplit', hs, herror, hstatuses⟩
  · cases houtcome.symm.trans hok
  · cases houtcome.symm.trans herror
    obtain ⟨rfl, rfl⟩ := eq_of_failed_statuses (hsplit.symm.trans hsplit')
      (Except.ok.inj (htells.statuses.symm.trans hstatuses))
    exact ⟨s, hs⟩

end Dispatched

/-- All that a run of a plan files is documents of its own, and all of them but the last are of a run
that goes on. -/
theorem execute_filed (x : Executor) (hidentity : identity.executionId = .str id)
    (hids : (p.order.map (·.id)).Nodup) (w : World) :
    ∃ (context : Context) (docs : List RunDocument), x.openContext identity p = .ok context
      ∧ (x.execute identity id p w).2.filed
        = w.filed ++ docs.map (Filing.mk executionsCollection id)
      ∧ (∀ i d, docs[i]? = some d → i + 1 < docs.length →
        d.record.Tells id .running (progress p.order i))
      ∧ x.Ending ⟨context, w.journal⟩ id p.order docs (x.execute identity id p w).1 := by
  obtain ⟨context, hopen, ⟨e, hrun, hclock⟩ | ⟨t, record, hcreate, hshows, hrun⟩⟩ :=
    x.execute_cases identity id hids w
  · rw [hrun]
    exact ⟨context, [], hopen, by simp, by simp, .unrecorded (fun hx => hclock hx.clock) rfl⟩
  -- What the record says of the whole is compared with the record as it was created.
  let o : Outset := ⟨w, id, record.execution, p.order⟩
  let start : Run := ⟨id, { w with ticks := w.ticks + 1 }, context, record⟩
  have ho : o.Fresh := .of_create hidentity hcreate w p.order
  have hend := Outset.leads_visitAll (o := o) (x := x) hids start
    ⟨⟨rfl, [], hshows⟩, [], rfl, by simp [Ongoing], rfl, by simp [o, start]⟩
  change x.execute identity id p w = Run.finished ((x.visitAll p.order).run start) at hrun
  change Ends _ _ ((x.visitAll p.order).run start) at hend
  generalize (x.visitAll p.order).run start = result at hend hrun
  cases result with
  | ok u r =>
    have hclosed : o.Closed .success (withStatus .success p.order) (2 * p.order.length + 1) r := hend
    obtain ⟨docs, hlength, hfiled, hongoing, hlast, htells⟩ := hclosed.docs ho nofun
    refine ⟨context, docs, hopen, hrun ▸ hfiled.filed, hongoing, ?_⟩
    have hsteps (hx : x.Dependable) :=
      dispatchAll_of_outcome hx hopen hids (congrArg Prod.fst hrun) rfl
    rw [hrun]
    exact .completed rfl hlength hlast htells hsteps
  | error e r =>
    rcases hend with ⟨done, n, rest, hsplit, hclosed⟩ | ⟨hx, docs, hongoing, hfiled⟩
    · obtain ⟨docs, hlength, hfiled, hongoing, hlast, htells⟩ := hclosed.docs ho nofun
      refine ⟨context, docs, hopen, hrun ▸ hfiled.filed, hongoing, ?_⟩
      have hsteps (hx : x.Dependable) :=
        breaksAt_of_outcome hx hopen hids (congrArg Prod.fst hrun) rfl hsplit htells
      rw [hrun]
      exact .failed rfl hsplit hlength hlast htells hsteps
    · have htells (i : Nat) (d : RunDocument) (hi : docs[i]? = some d) :
          d.record.Tells id .running (progress p.order i) := ho.tells (hongoing i d hi)
      rw [hrun]
      exact ⟨context, docs, hopen, hfiled.filed, fun i d hi _ => htells i d hi,
        .interrupted rfl hx htells⟩

end Executor

end BuildPipeline
