import BuildPipeline.Proofs.DepthFirst
import BuildPipeline.Proofs.FailFast
import BuildPipeline.Proofs.RecordStorage

/-! The events of a record.  A step that succeeds adds one event, and the rest of a record can be read
off its events: the status of each node, the status of the run, and the order of the nodes. -/

namespace BuildPipeline

open BuildPipeline.Time

theorem Table.keys_ofList {κ α : Type} [BEq κ] [LawfulBEq κ] [DecidableEq κ] (t : Table κ α) :
    (Table.ofList t).keys = firsts t.keys := by
  induction t using List.reverseRecOn with
  | nil => rfl
  | append_singleton t e ih =>
    have hlast : Table.ofList (t ++ [e]) = Table.insert (Table.ofList t) e.1 e.2 := by
      simp [Table.ofList, Table.union]
    rw [hlast, Table.keys_insert, ih, Table.keys_append]
    change _ = firsts (Table.keys t ++ [e.1])
    simp [firsts_append_singleton]

namespace RecordAction

/-- The type of the event of an action. -/
def eventType : RecordAction → String
  | .runStarted => "run_started"
  | .nodeStarted _ => "node_started"
  | .nodeFinished _ _ => "node_finished"
  | .nodeFailed _ _ => "node_failed"
  | .runFinished _ => "run_finished"

/-- The node that an action is about, and the status that it gives to it. -/
def gives : RecordAction → Option (String × NodeStatus)
  | .nodeStarted id => some (id, .running)
  | .nodeFinished id _ => some (id, .success)
  | .nodeFailed id _ => some (id, .failed)
  | .runStarted | .runFinished _ => none

def node? (a : RecordAction) : Option String := a.gives.map (·.1)

/-- What the event of an action is about. -/
def heading (a : RecordAction) : Option Value × Option Value :=
  (some (.str a.eventType), a.node?.map .str)

end RecordAction

namespace Record

variable {r r' : Record} {a : RecordAction} {id : String} {status : NodeStatus} {t : Moment} {e : Dict}

section Reading

variable {events : List Dict}

/-- The node that an event names. -/
def named? (e : Dict) : Option String :=
  match Dict.field e "node_id" with
  | some (.scalar (.str id)) => some id
  | _ => none

/-- The status of a node after an event that names it. -/
def statusAfter? (e : Dict) : Option NodeStatus :=
  if Dict.field e "event_type" = some (.str "node_started") then some .running
  else if Dict.field e "event_type" = some (.str "node_finished") then some .success
  else if Dict.field e "event_type" = some (.str "node_failed") then some .failed
  else none

/-- The status of a node, as the last event that names it tells. -/
def statusIn (events : List Dict) (id : String) : NodeStatus :=
  ((events.filter (named? · == some id)).getLast?.bind statusAfter?).getD .pending

def isRunFinished (e : Dict) : Bool := Dict.field e "event_type" == some (.str "run_finished")

/-- The status that an event bears. -/
def payloadStatus? (e : Dict) : Option Value :=
  match Dict.field e "payload" with
  | some (.dict d) => Dict.field d "status"
  | _ => none

/-- The status of a run, as the last event of its end tells. -/
def verdictIn (events : List Dict) : Value :=
  ((events.filter isRunFinished).getLast?.bind payloadStatus?).getD (.str RunStatus.running.name)

theorem statusIn_append_named (h : named? e = some id) (hs : statusAfter? e = some status) :
    statusIn (events ++ [e]) id = status := by
  simp [statusIn, h, hs]

theorem statusIn_append_of_ne (h : named? e ≠ some id) :
    statusIn (events ++ [e]) id = statusIn events id := by
  simp [statusIn, h]

theorem verdictIn_append_finished (h : isRunFinished e = true) {v : Value}
    (hv : payloadStatus? e = some v) : verdictIn (events ++ [e]) = v := by
  simp [verdictIn, h, hv]

theorem verdictIn_append_of_not (h : isRunFinished e = false) :
    verdictIn (events ++ [e]) = verdictIn events := by
  simp [verdictIn, h]

theorem named?_of_heading (h : heading e = a.heading) : named? e = a.node? := by
  rw [named?, (Prod.mk.inj h).2]
  cases a.node? <;> rfl

theorem statusAfter?_of_heading (h : heading e = a.heading) :
    statusAfter? e = a.gives.map (·.2) := by
  simp only [statusAfter?, show Dict.field e "event_type" = _ from (Prod.mk.inj h).1]
  cases a <;> rfl

theorem isRunFinished_of_heading (h : heading e = a.heading) :
    isRunFinished e = (a.eventType == "run_finished") := by
  rw [isRunFinished, show Dict.field e "event_type" = _ from (Prod.mk.inj h).1]
  cases a <;> rfl

end Reading

section Steps

/-- What an action that succeeds makes of a record: it adds one event, which bears the status that it
writes. -/
inductive Logs (r : Record) : RecordAction → Record → Prop
  | opened (e : Dict) : heading e = RecordAction.runStarted.heading → Logs r .runStarted (r.withEvent e)
  | reached (a : RecordAction) (id : String) (status : NodeStatus) (fields : Table String Value)
    (e : Dict) : a.gives = some (id, status) → heading e = a.heading →
    (∀ n, Dict.field (Table.union n (Dict.of fields)) "status" = some (.str status.name)) →
    Logs r a (((r.register id).update id fields).withEvent e)
  | closed (status : RunStatus) (execution e : Dict) :
    heading e = (RecordAction.runFinished status).heading →
    Dict.field execution "status" = some (.str status.name) →
    payloadStatus? e = some (.str status.name) →
    Logs r (.runFinished status) ({ r with execution }.withEvent e)

/-- A node ends only if it can be said how long it took. -/
theorem exists_duration {more : Except Failure (Table String Value)} {k : Nat → RecordStep Unit}
    {u : Moment} (hu : t.utc = .ok u) (h : (endNode id status t more >>= k).run r = .ok () r') :
    ∃ ms, duration ((r.register id).node id) t = .ok ms := by
  cases hd : duration ((r.register id).node id) t with
  | ok ms => exact ⟨ms, rfl⟩
  | error e =>
    have hrun : (endNode id status t more).run r = .error (.time e) (r.register id) := by
      simp only [endNode, stamp_eq hu, EStateM.run_bind, EStateM.run_modify]
      change EStateM.run
        (EStateM.bind (liftExcept ((duration ((r.register id).node id) t).mapError _)) _) _ = _
      rw [hd]
      rfl
    rw [EStateM.run_bind, hrun] at h
    cases h

theorem dated_step (a : RecordAction) : Dated fun t => a.step t := by
  cases a with
  | runStarted => exact dated_runStarted
  | nodeStarted id => exact dated_nodeStarted id
  | nodeFinished id outputs => exact dated_nodeFinished id _
  | nodeFailed id error => exact dated_nodeFailed id _
  | runFinished status => exact dated_runFinished status

theorem logs_of_step (h : (a.step t).run r = .ok () r') : Logs r a r' := by
  cases hu : t.utc with
  | error e =>
    obtain ⟨e', s, hrun⟩ := dated_step a t e r hu
    cases h.symm.trans hrun
  | ok u =>
    cases a with
    | runStarted =>
      cases h.symm.trans (runStarted_run hu)
      exact .opened _ (heading_ofRun _)
    | nodeStarted id =>
      cases h.symm.trans (nodeStarted_run hu)
      exact .reached _ id .running _ _ rfl (heading_ofNode _ id) fun n => by
        simp [Dict.union_of_cons, Dict.field_set]
    | nodeFinished id outputs =>
      obtain ⟨ms, hd⟩ := exists_duration hu h
      rw [RecordAction.step_nodeFinished] at h
      cases h.symm.trans (nodeFinished_run hu hd)
      exact .reached _ id .success _ _ rfl (heading_ofNode _ id) fun n => by
        simp [Dict.union_of_cons, Dict.field_set]
    | nodeFailed id error =>
      obtain ⟨ms, hd⟩ := exists_duration hu h
      cases h.symm.trans (nodeFailed_run hu hd)
      exact .reached _ id .failed _ _ rfl (heading_ofNode _ id) fun n => by
        simp [Dict.union_of_cons, Dict.field_set]
    | runFinished status =>
      cases h.symm.trans (runFinished_run hu)
      refine .closed status (Dict.set (Dict.set r.execution "status" (.str status.name))
        "finished_at" (.str u.iso)) _ (heading_ofRun _) ?_ ?_
      · simp [Dict.field_set]
      · simp [payloadStatus?, event, present, Value.ofTable, Dict.of, Dict.field_cons]

theorem Logs.events (h : Logs r a r') :
    ∃ e, heading e = a.heading ∧ r'.events = r.events ++ [e] := by
  cases h with
  | opened e he | reached _ _ _ _ e _ he | closed _ _ e he => exact ⟨e, he, rfl⟩

/-- An action leaves the nodes alone that it is not about. -/
theorem Logs.others (h : Logs r a r') {other : String} (hother : a.node? ≠ some other) :
    Table.get? r'.nodes other = Table.get? r.nodes other := by
  cases h with
  | opened e he | closed status execution e he => rfl
  | reached a id status fields e hgives he =>
    have hne : id ≠ other := fun heq => hother (by rw [RecordAction.node?, hgives, ← heq]; rfl)
    simp [withEvent, update, register, Table.get?_insert, Table.get?_insertNew, hne]

theorem Logs.keys (h : Logs r a r') : r'.nodes.keys = match a.node? with
    | some id => if id ∈ r.nodes.keys then r.nodes.keys else r.nodes.keys ++ [id]
    | none => r.nodes.keys := by
  cases h with
  | opened e he | closed status execution e he => rfl
  | reached a id status fields e hgives he =>
    rw [RecordAction.node?, hgives]
    change ((r.register id).update id fields).nodes.keys = _
    rw [keys_update, keys_register]
    by_cases hid : id ∈ r.nodes.keys <;> simp [hid]

theorem nodeStatus_of_get? {d : Dict} {v : Value} (hd : Table.get? r.nodes id = some d)
    (hv : Dict.field d "status" = some v) : r.nodeStatus id = .ok v := by
  simp only [nodeStatus, hd, Value.item, hv]

theorem Logs.given (h : Logs r a r') (ha : a.gives = some (id, status)) :
    r'.nodeStatus id = .ok (.str status.name) := by
  cases h with
  | opened e he | closed status execution e he => cases ha
  | reached a id' status' fields e hgives he hstatus =>
    cases hgives.symm.trans ha
    refine nodeStatus_of_get? ?_ (hstatus ((r.register id).node id))
    simp [withEvent, update, Table.get?_insert]

theorem Logs.run (h : Logs r a r') (hr : r.status = .ok (verdictIn r.events)) :
    r'.status = .ok (verdictIn r'.events) := by
  cases h with
  | opened e he =>
    exact hr.trans (congrArg _ (verdictIn_append_of_not (isRunFinished_of_heading he)).symm)
  | reached a id status fields e hgives he =>
    have hnot : isRunFinished e = false := by
      rw [isRunFinished_of_heading he]
      cases a <;> first | rfl | cases hgives
    exact hr.trans (congrArg _ (verdictIn_append_of_not hnot).symm)
  | closed status execution e he hexecution hpayload =>
    have hverdict : verdictIn (r.events ++ [e]) = .str status.name :=
      verdictIn_append_finished (isRunFinished_of_heading he) hpayload
    simp only [Record.status, withEvent, hverdict, Value.item, hexecution]

end Steps

section Told

variable {ids : List String}

/-- A record that its events tell: the nodes are those that it began with and those that events name,
in this order, and each status is the last one that was told. -/
structure ToldBy (ids : List String) (r : Record) : Prop where
  order : r.nodes.keys = firsts (ids ++ r.events.filterMap named?)
  nodes : ∀ id ∈ r.nodes.keys, r.nodeStatus id = .ok (.str (statusIn r.events id).name)
  run : r.status = .ok (verdictIn r.events)

theorem Logs.toldBy (h : Logs r a r') (hr : r.ToldBy ids) : r'.ToldBy ids := by
  obtain ⟨e, he, hevents⟩ := h.events
  have hnamed := named?_of_heading he
  have hkeys := h.keys
  refine ⟨?_, fun id hid => ?_, h.run hr.run⟩
  · rw [hkeys, hevents, List.filterMap_append, ← List.append_assoc]
    cases hnode : a.node? with
    | none => simp [hnamed, hnode, hr.order]
    | some id =>
      have hlast : [e].filterMap named? = [id] := by simp [hnamed, hnode]
      rw [hlast, firsts_append_singleton]
      simp [hr.order]
  · by_cases hnode : a.node? = some id
    · obtain ⟨⟨_, status⟩, hgives, rfl⟩ := Option.map_eq_some_iff.1 hnode
      have hafter : statusAfter? e = some status := by rw [statusAfter?_of_heading he, hgives]; rfl
      rw [h.given hgives, hevents, statusIn_append_named (hnamed.trans hnode) hafter]
    · have hold : id ∈ r.nodes.keys := by
        rw [hkeys] at hid
        split at hid
        case h_1 other hother =>
          split at hid
          · exact hid
          · refine (List.mem_append.1 hid).resolve_right fun hlast => hnode ?_
            rw [hother, List.mem_singleton.1 hlast]
        case h_2 => exact hid
      rw [hevents, statusIn_append_of_ne (hnamed ▸ hnode), ← hr.nodes id hold, nodeStatus, nodeStatus,
        h.others hnode]

theorem toldBy_create {identity : RunIdentity} {entries : List (String × String)} {hash : Value}
    (h : create identity entries t hash = .ok r) : r.ToldBy (entries.map (·.1)) := by
  obtain ⟨time, -, h⟩ := bind_eq_ok.1 h
  cases h
  refine ⟨?_, fun id hid => ?_, ?_⟩
  · refine (Table.keys_ofList _).trans ?_
    simp [Table.keys, Function.comp_def]
  · obtain ⟨d, hd⟩ := Option.isSome_iff_exists.1 (Table.mem_keys_iff.1 hid)
    refine nodeStatus_of_get? hd ?_
    have hmem := (Table.mem_union (Table.mem_of_get?_eq hd)).resolve_left List.not_mem_nil
    obtain ⟨n, -, hn⟩ := List.mem_map.1 hmem
    cases hn
    simp [Dict.of, Dict.field_cons, statusIn]
  · simp [Record.status, Value.item, Dict.of, Dict.field_cons, verdictIn]

end Told

section Runs

variable {ids : List String} {as : List (RecordAction × Moment)}

/-- Actions on a record, one after another, up to the first that fails. -/
def perform (as : List (RecordAction × Moment)) : RecordStep Unit := as.forM fun a => a.1.step a.2

theorem perform_cons {a : RecordAction × Moment} (h : (perform (a :: as)).run r = .ok () r') :
    ∃ r₁, Logs r a.1 r₁ ∧ (perform as).run r₁ = .ok () r' := by
  rw [perform, forM_run_cons] at h
  split at h
  case h_1 r₁ hstep => exact ⟨r₁, logs_of_step hstep, h⟩
  case h_2 => cases h

theorem perform_append {before after : List (RecordAction × Moment)}
    (h : (perform (before ++ after)).run r = .ok () r') :
    ∃ r₁, (perform before).run r = .ok () r₁ ∧ (perform after).run r₁ = .ok () r' := by
  induction before generalizing r with
  | nil => exact ⟨r, rfl, h⟩
  | cons a before ih =>
    rw [List.cons_append, perform, forM_run_cons] at h
    rw [perform, forM_run_cons]
    split at h
    case h_1 r₁ hstep => exact ih h
    case h_2 => cases h

/-- Each action adds its own event. -/
theorem perform_events (h : (perform as).run r = .ok () r') :
    ∃ added, r'.events = r.events ++ added ∧ added.map heading = as.map (·.1.heading) := by
  induction as generalizing r with
  | nil =>
    cases h
    exact ⟨[], by simp, rfl⟩
  | cons a as ih =>
    obtain ⟨r₁, hstep, hrest⟩ := perform_cons h
    obtain ⟨e, he, hevents⟩ := hstep.events
    obtain ⟨added, hadded, hheadings⟩ := ih hrest
    exact ⟨e :: added, by simp [hadded, hevents], by simp [he, hheadings]⟩

theorem perform_toldBy (hr : r.ToldBy ids) (h : (perform as).run r = .ok () r') :
    r'.ToldBy ids := by
  induction as generalizing r with
  | nil =>
    cases h
    exact hr
  | cons a as ih =>
    obtain ⟨r₁, hstep, hrest⟩ := perform_cons h
    exact ih (hstep.toldBy hr) hrest

end Runs

end Record

/-- The events of a record tell its state.  Whatever is done with it, each action that succeeds adds
just the event that says so, after those that are there, and changes no node but its own.  The nodes
are those that the record was created with and then those that events name, in the order of their
first event; each node has the status of the last event that names it, and the run that of the last
event of its end. -/
theorem record_told {identity : RunIdentity} {entries : List (String × String)} {t₀ : Moment}
    {hash : Value} {r₀ : Record} (hcreate : Record.create identity entries t₀ hash = .ok r₀)
    (as : List (RecordAction × Moment)) {r : Record} (hrun : (Record.perform as).run r₀ = .ok () r) :
    r.events.map Record.heading = as.map (·.1.heading)
      ∧ (∀ before after, as = before ++ after → ∃ r₁, (Record.perform before).run r₀ = .ok () r₁
        ∧ r₁.events <+: r.events)
      ∧ r.nodes.keys = firsts (entries.map (·.1) ++ r.events.filterMap Record.named?)
      ∧ (∀ id ∈ r.nodes.keys, r.nodeStatus id = .ok (.str (Record.statusIn r.events id).name))
      ∧ r.status = .ok (Record.verdictIn r.events)
      ∧ ∀ (a : RecordAction) (t : Moment) (r' : Record), (a.step t).run r = .ok () r' →
        (∃ e, Record.heading e = a.heading ∧ r'.events = r.events ++ [e])
          ∧ ∀ id, a.node? ≠ some id → Table.get? r'.nodes id = Table.get? r.nodes id := by
  have hnone : r₀.events = [] := by
    obtain ⟨time, -, h⟩ := bind_eq_ok.1 hcreate
    cases h
    rfl
  obtain ⟨added, hadded, hheadings⟩ := Record.perform_events hrun
  have htold := Record.perform_toldBy (Record.toldBy_create hcreate) hrun
  refine ⟨?_, ?_, htold.order, htold.nodes, htold.run, fun a t r' hstep => ?_⟩
  · rw [hadded, hnone, List.nil_append, hheadings]
  · rintro before after rfl
    obtain ⟨r₁, hbefore, hafter⟩ := Record.perform_append hrun
    obtain ⟨more, hmore, -⟩ := Record.perform_events hafter
    exact ⟨r₁, hbefore, more, hmore.symm⟩
  · have hlogs := Record.logs_of_step hstep
    exact ⟨hlogs.events, fun id hid => hlogs.others hid⟩

/-- A node that was not registered comes last, with a status of its own. -/
theorem record_told_stray :
    let as : List (RecordAction × Moment) := [(.runStarted, midnight), (.nodeStarted "b", midnight),
      (.nodeFailed "stray" [], midnight), (.runFinished .failed, midnight)]
    ∃ r₀ r, Record.create singleRun [("a", "build"), ("b", "deploy")] midnight .null = .ok r₀
      ∧ (Record.perform as).run r₀ = .ok () r ∧ r.nodes.keys = ["a", "b", "stray"]
      ∧ r.nodeStatus "a" = .ok (.str "pending") ∧ r.nodeStatus "b" = .ok (.str "running")
      ∧ r.nodeStatus "stray" = .ok (.str "failed") ∧ r.status = .ok (.str "failed") := by
  intro as
  have hcreate : Record.create singleRun [("a", "build"), ("b", "deploy")] midnight .null
      = .ok _ := rfl
  obtain ⟨-, -, horder, hnodes, hstatus, -⟩ := record_told hcreate as rfl
  have hkeys := horder.trans (show _ = ["a", "b", "stray"] from rfl)
  rw [hkeys] at hnodes
  exact ⟨_, _, hcreate, rfl, hkeys, hnodes "a" (by decide), hnodes "b" (by decide),
    hnodes "stray" (by decide), hstatus⟩

end BuildPipeline
