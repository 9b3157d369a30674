import BuildPipeline.Proofs.DocumentLaws
import BuildPipeline.Proofs.IsoMoments
import BuildPipeline.Record.Basic

/-! Laws of records: what each step of a run leaves in the state of the nodes and in the events. -/

namespace BuildPipeline

open BuildPipeline.Time

namespace Time.Moment

theorem utc_spec {t u : Moment} (h : t.utc = .ok u) :
    u.offset = some 0 ∧ u.micros < horizon ∧ u.utc = .ok u := by
  rw [utc] at h
  split at h
  case isTrue hr =>
    cases h
    have hinstant : (⟨t.instant.toNat, some 0⟩ : Moment).instant = t.instant := by
      change Int.ofNat t.instant.toNat - 0 = t.instant
      rw [Int.sub_zero]
      exact Int.toNat_of_nonneg hr.1
    refine ⟨rfl, (Int.toNat_lt hr.1).2 hr.2, ?_⟩
    rw [utc, hinstant, if_pos hr]
  case isFalse => cases h

theorem iso_ne_empty {t : Moment} (h : t.offset = some 0) (ht : t.micros < horizon) :
    t.iso ≠ "" := by
  intro hempty
  have hread := read_iso h ht
  rw [hempty] at hread
  cases hread

end Time.Moment

namespace Record

variable {r : Record} {t u : Moment} {id : String}

theorem stamp_eq (h : t.utc = .ok u) : stamp t = .ok u.iso := by
  simp only [stamp, h, mapError_ok]
  rfl

/-- The event that `addEvent` adds. -/
def event (type node payload : Value) (u : Moment) : Dict :=
  Dict.of ([("event_type", type), ("timestamp", .str u.iso)] ++ present "node_id" node
    ++ present "payload" payload)

def withEvent (r : Record) (e : Dict) : Record := { r with events := r.events ++ [e] }

theorem addEvent_run (h : t.utc = .ok u) (type node payload : Value) :
    (addEvent type node payload t).run r = .ok () (r.withEvent (event type node payload u)) := by
  simp only [addEvent, stamp_eq h]
  rfl

theorem runStarted_run (h : t.utc = .ok u) :
    (runStarted t).run r = .ok () (r.withEvent (event (.str "run_started") .null
      (.ofTable [("nodes", .ofStrings r.nodes.keys)]) u)) := by
  simp only [runStarted, EStateM.run_bind, EStateM.run_get, addEvent_run h]

/-- A record in which a node runs since `u`. -/
def begun (r : Record) (id : String) (u : Moment) : Record :=
  (r.register id).update id [("status", .str NodeStatus.running.name), ("started_at", .str u.iso)]

theorem nodeStarted_run (h : t.utc = .ok u) :
    (nodeStarted id t).run r = .ok () ((r.begun id u).withEvent (event (.str "node_started")
      (.str id) (.ofTable [("type", Dict.fieldD ((r.begun id u).node id) "type")]) u)) := by
  simp only [nodeStarted, stamp_eq h, EStateM.run_bind, EStateM.run_modify]
  exact addEvent_run h _ _ _

/-- A record in which a node has ended at `u`, after `ms` milliseconds. -/
def ended (r : Record) (id : String) (status : NodeStatus) (u : Moment) (ms : Nat)
    (more : Table String Value) : Record :=
  (r.register id).update id ([("status", .str status.name), ("finished_at", .str u.iso),
    ("duration_ms", .int ms)] ++ more)

theorem endNode_run {status : NodeStatus} {ms : Nat} {more : Table String Value}
    (h : t.utc = .ok u) (hd : duration ((r.register id).node id) t = .ok ms) :
    (endNode id status t (.ok more)).run r = .ok ms (r.ended id status u ms more) := by
  simp only [endNode, stamp_eq h, EStateM.run_bind, EStateM.run_modify]
  change EStateM.run (EStateM.bind (liftExcept ((duration ((r.register id).node id) t).mapError _)) _)
    _ = _
  rw [hd]
  rfl

theorem nodeFinished_run {ms : Nat} {outputs : Dict} (h : t.utc = .ok u)
    (hd : duration ((r.register id).node id) t = .ok ms) :
    (nodeFinished id (.dict outputs) t).run r
      = .ok () ((r.ended id .success u ms [("outputs", .dict outputs)]).withEvent
          (event (.str "node_finished") (.str id)
            (.ofTable [("status", .str NodeStatus.success.name), ("duration_ms", .int ms)]) u)) := by
  have hmore : (((Value.dict outputs).orElse (.dict [])).toDict.mapError Failure.shape).map
      (fun d => [("outputs", Value.dict d)]) = .ok [("outputs", .dict outputs)] := by
    cases outputs <;> rfl
  simp only [nodeFinished, hmore, EStateM.run_bind, endNode_run h hd]
  exact addEvent_run h _ _ _

theorem nodeFailed_run {ms : Nat} {error : Dict} (h : t.utc = .ok u)
    (hd : duration ((r.register id).node id) t = .ok ms) :
    (nodeFailed id (.dict error) t).run r
      = .ok () ((r.ended id .failed u ms [("error", .dict error)]).withEvent
          (event (.str "node_failed") (.str id)
            (.ofTable [("error_type", Dict.fieldD error "type"),
              ("message", Dict.fieldD error "message")]) u)) := by
  have hmore : ((Value.dict error).toDict.mapError Failure.shape).map
      (fun d => [("error", Value.dict d)]) = .ok [("error", .dict error)] := rfl
  simp only [nodeFailed, hmore, EStateM.run_bind, endNode_run h hd]
  exact addEvent_run h _ _ _

theorem runFinished_run {status : RunStatus} (h : t.utc = .ok u) :
    (runFinished status t).run r = .ok () { r with
      execution := Dict.set (Dict.set r.execution "status" (.str status.name)) "finished_at"
        (.str u.iso)
      events := r.events ++ [event (.str "run_finished") .null
        (.ofTable [("status", .str status.name)]) u] } := by
  simp only [runFinished, stamp_eq h, EStateM.run_bind, EStateM.run_modify]
  exact addEvent_run h _ _ _

theorem duration_eq {n : Dict} {s v : Moment} (hs : s.utc = .ok v)
    (hn : Dict.field n "started_at" = some (.str v.iso)) (h : t.utc = .ok u) :
    duration n t = .ok (wholeMillis v u) := by
  obtain ⟨hoffset, hlt, hv⟩ := Moment.utc_spec hs
  have htruthy : (Value.str v.iso).truthy = true := by
    simp [Value.truthy, Moment.iso_ne_empty hoffset hlt]
  simp only [duration, Dict.fieldD, hn, Option.getD_some, htruthy, if_true,
    Moment.read_iso hoffset hlt, h]
  change (v.utc >>= fun s => pure (wholeMillis s u)) = _
  rw [hv]
  rfl

/-- What an event is about: its type, and its node if it has one. -/
def heading (e : Dict) : Option Value × Option Value :=
  (Dict.field e "event_type", Dict.field e "node_id")

def ofRun (type : String) : Option Value × Option Value := (some (.str type), none)

def ofNode (type id : String) : Option Value × Option Value := (some (.str type), some (.str id))

@[simp] theorem heading_ofRun (type : String) {payload : Value} :
    heading (event (.str type) .null payload u) = ofRun type := by
  by_cases hp : payload = .null <;>
    simp [heading, event, present, hp, Dict.of, Dict.field_cons, ofRun]

@[simp] theorem heading_ofNode (type id : String) {payload : Value} :
    heading (event (.str type) (.str id) payload u) = ofNode type id := by
  by_cases hp : payload = .null <;>
    simp [heading, event, present, hp, Dict.of, Dict.field_cons, ofNode]

/-- The name of a node and its status. -/
def standing (e : String × Dict) : String × Option Value := (e.1, Dict.field e.2 "status")

def listed (n : String × NodeStatus) : String × Option Value := (n.1, some (.str n.2.name))

/-- The nodes of a record with their statuses and the headings of its events. -/
structure Shows (r : Record) (nodes : List (String × NodeStatus))
    (headings : List (Option Value × Option Value)) : Prop where
  nodes : r.nodes.map standing = nodes.map listed
  headings : r.events.map heading = headings

section Shows

variable {nodes before after : List (String × NodeStatus)} {status : NodeStatus}
  {headings : List (Option Value × Option Value)}

theorem keys_eq_of_standing {entries : Table String Dict}
    (h : entries.map standing = nodes.map listed) :
    entries.keys = nodes.map (·.1) := by
  have hfst := congrArg (List.map Prod.fst) h
  rw [List.map_map, List.map_map] at hfst
  exact hfst

theorem Shows.keys (h : r.Shows nodes headings) : r.nodes.keys = nodes.map (·.1) :=
  keys_eq_of_standing h.nodes

theorem Shows.statuses (h : r.Shows nodes headings) :
    r.statuses = .ok (nodes.map fun n => .str n.2.name) := by
  have hn := h.nodes
  rw [Record.statuses]
  clear h
  generalize r.nodes = entries at hn
  induction entries generalizing nodes with
  | nil =>
    cases nodes with
    | nil => rfl
    | cons n nodes => cases hn
  | cons e entries ih =>
    cases nodes with
    | nil => cases hn
    | cons n nodes =>
      simp only [List.map_cons, List.cons.injEq, standing, listed, Prod.mk.injEq] at hn
      rw [List.mapM_cons, ih hn.2]
      simp only [Value.item, hn.1.2]
      rfl

theorem exists_split {entries : Table String Dict} (h : entries.map standing
    = (before ++ (id, status) :: after).map listed) (hid : id ∉ before.map (·.1)) :
    ∃ front entry back, entries = front ++ (id, entry) :: back ∧ Table.Fresh front id
      ∧ front.map standing = before.map listed
      ∧ back.map standing = after.map listed := by
  rw [List.map_append, List.map_cons] at h
  obtain ⟨front, rest, rfl, hfront, hrest⟩ := List.map_eq_append_iff.1 h
  obtain ⟨⟨key, entry⟩, back, rfl, hentry, hback⟩ := List.map_eq_cons_iff.1 hrest
  obtain rfl : key = id := congrArg Prod.fst hentry
  refine ⟨front, entry, back, rfl, Table.fresh_iff.2 ?_, hfront, hback⟩
  rwa [keys_eq_of_standing hfront]

theorem Shows.register_eq (h : r.Shows (before ++ (id, status) :: after) headings)
    (hid : id ∉ before.map (·.1)) : r.register id = r := by
  obtain ⟨front, entry, back, hnodes, hfresh, -, -⟩ := exists_split h.nodes hid
  rw [register, Table.insertNew, Table.contains, hnodes, Table.get?_append_cons hfresh]
  simp [← hnodes]

/-- A write to a node that the record has changes that node alone. -/
theorem Shows.update (h : r.Shows (before ++ (id, status) :: after) headings)
    (hid : id ∉ before.map (·.1)) (status' : NodeStatus) (fields : Table String Value)
    (hs : ∀ n, Dict.field (Table.union n (Dict.of fields)) "status" = some (.str status'.name)) :
    ((r.register id).update id fields).Shows (before ++ (id, status') :: after) headings
      ∧ ((r.register id).update id fields).node id = Table.union (r.node id) (Dict.of fields) := by
  obtain ⟨front, entry, back, hnodes, hfresh, hfront, hback⟩ := exists_split h.nodes hid
  have hnode : r.node id = entry := by
    rw [node, Table.getD, hnodes, Table.get?_append_cons hfresh]
    rfl
  have hupdate : (r.update id fields).nodes
      = front ++ (id, Table.union entry (Dict.of fields)) :: back := by
    rw [Record.update, hnode, hnodes]
    exact Table.insert_append_cons hfresh _ _
  rw [h.register_eq hid]
  refine ⟨⟨?_, h.headings⟩, ?_⟩
  · rw [hupdate]
    simp [hfront, hback, standing, listed, hs]
  · rw [node, Table.getD, hupdate, Table.get?_append_cons hfresh, hnode]
    rfl

theorem Shows.withEvent (h : r.Shows nodes headings) (e : Dict) :
    (r.withEvent e).Shows nodes (headings ++ [heading e]) :=
  ⟨h.nodes, by simp [Record.withEvent, h.headings]⟩

/-- A node that was started at some moment. -/
def Started (r : Record) (id : String) : Prop :=
  ∃ t u : Moment, t.utc = .ok u
    ∧ Dict.field ((r.register id).node id) "started_at" = some (.str u.iso)

theorem Shows.nodeStarted (h : r.Shows (before ++ (id, status) :: after) headings)
    (hid : id ∉ before.map (·.1)) (ht : t.utc = .ok u) :
    ∃ r', (Record.nodeStarted id t).run r = .ok () r'
      ∧ r'.Shows (before ++ (id, .running) :: after) (headings ++ [ofNode "node_started" id])
      ∧ r'.Started id := by
  obtain ⟨hshows, hnode⟩ := h.update hid .running
    [("status", .str NodeStatus.running.name), ("started_at", .str u.iso)]
    fun n => by simp [Dict.union_of_cons, Dict.field_set]
  change (r.begun id u).Shows _ _ at hshows
  change (r.begun id u).node id = _ at hnode
  have hresult := hshows.withEvent (event (.str "node_started") (.str id)
    (.ofTable [("type", Dict.fieldD ((r.begun id u).node id) "type")]) u)
  rw [heading_ofNode] at hresult
  refine ⟨_, nodeStarted_run ht, hresult, t, u, ht, ?_⟩
  rw [hresult.register_eq hid]
  change Dict.field ((r.begun id u).node id) "started_at" = _
  rw [hnode]
  simp [Dict.union_of_cons, Dict.field_set]

theorem Shows.nodeFinished (h : r.Shows (before ++ (id, status) :: after) headings)
    (hid : id ∉ before.map (·.1)) (hstart : r.Started id) (ht : t.utc = .ok u) (outputs : Dict) :
    ∃ r', (Record.nodeFinished id (.dict outputs) t).run r = .ok () r'
      ∧ r'.Shows (before ++ (id, .success) :: after) (headings ++ [ofNode "node_finished" id]) := by
  obtain ⟨t₀, u₀, hs, hn⟩ := hstart
  refine ⟨_, nodeFinished_run ht (duration_eq hs hn ht), ?_⟩
  rw [← heading_ofNode]
  refine Shows.withEvent ?_ _
  exact (h.update hid .success _ fun n => by simp [Dict.union_of_cons, Dict.field_set]).1

theorem Shows.nodeFailed (h : r.Shows (before ++ (id, status) :: after) headings)
    (hid : id ∉ before.map (·.1)) (hstart : r.Started id) (ht : t.utc = .ok u) (error : Dict) :
    ∃ r', (Record.nodeFailed id (.dict error) t).run r = .ok () r'
      ∧ r'.Shows (before ++ (id, .failed) :: after) (headings ++ [ofNode "node_failed" id]) := by
  obtain ⟨t₀, u₀, hs, hn⟩ := hstart
  refine ⟨_, nodeFailed_run ht (duration_eq hs hn ht), ?_⟩
  rw [← heading_ofNode]
  refine Shows.withEvent ?_ _
  exact (h.update hid .failed _ fun n => by simp [Dict.union_of_cons, Dict.field_set]).1

theorem Shows.runStarted (h : r.Shows nodes headings) (ht : t.utc = .ok u) :
    ∃ r', (Record.runStarted t).run r = .ok () r'
      ∧ r'.Shows nodes (headings ++ [ofRun "run_started"]) := by
  refine ⟨_, runStarted_run ht, ?_⟩
  rw [← heading_ofRun]
  exact h.withEvent _

theorem create_shows (entries : List (String × String)) (identity : RunIdentity) (hash : Value)
    (hids : (entries.map (·.1)).Nodup) (ht : t.utc = .ok u) :
    ∃ r, create identity entries t hash = .ok r
      ∧ r.Shows (entries.map fun e => (e.1, .pending)) [] := by
  have hdistinct : Table.Distinct (entries.map fun n => (n.1, Dict.of [("node_id", .str n.1),
      ("type", .str n.2), ("status", .str NodeStatus.pending.name)])) := by
    rw [Table.Distinct, List.pairwise_map]
    exact (List.pairwise_map.1 hids).imp fun h => beq_eq_false_iff_ne.2 h
  refine ⟨_, by rw [create, stamp_eq ht]; rfl, ?_, rfl⟩
  rw [Table.ofList_of_distinct hdistinct]
  simp [Function.comp_def, standing, listed, Dict.of, Dict.field_cons]

/-- A record of a run that is over: the nodes in order with their statuses, and what happened at
them between the first event and the last one, which bears the status of the run. -/
structure Concludes (r : Record) (verdict : RunStatus) (nodes : List (String × NodeStatus))
    (visits : List (Option Value × Option Value)) : Prop where
  keys : r.nodes.keys = nodes.map (·.1)
  statuses : r.statuses = .ok (nodes.map fun n => .str n.2.name)
  status : r.status = .ok (.str verdict.name)
  headings : r.events.map heading = ofRun "run_started" :: visits ++ [ofRun "run_finished"]
  last : r.events.getLast?.bind (Dict.field · "payload")
    = some (.ofTable [("status", .str verdict.name)])

theorem Shows.runFinished {visits : List (Option Value × Option Value)}
    (h : r.Shows nodes (ofRun "run_started" :: visits)) (ht : t.utc = .ok u)
    (verdict : RunStatus) :
    ∃ r', (Record.runFinished verdict t).run r = .ok () r' ∧ r'.Concludes verdict nodes visits := by
  refine ⟨_, runFinished_run ht, h.keys, h.statuses, ?_, ?_, ?_⟩
  · simp [Record.status, Value.item, Dict.field_set]
  · simp [h.headings]
  · simp [event, present, Value.ofTable, Dict.of, Dict.field_cons]

end Shows

end Record

end BuildPipeline
