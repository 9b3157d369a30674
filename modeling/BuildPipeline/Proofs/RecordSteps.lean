import BuildPipeline.Proofs.RecordLaws
import BuildPipeline.Proofs.SessionLaws

/-!
Steps on a record, whether they succeed or fail half-way. What they keep of it is closed under the ways
of building a step. What holds of the nodes survives a step if it survives the fields that the step
writes. Steps at nodes leave what the record says of the whole, and no step works at a time without a
date in UTC.
-/

namespace BuildPipeline

open BuildPipeline.Time

namespace Record

section Keeps

variable {I : Record → Prop} {α β : Type}

/-- A step that keeps what holds of a record, also where it fails. -/
def Keeps (I : Record → Prop) (f : RecordStep α) : Prop := ∀ r, I r → I (stateOf (f.run r))

theorem keeps_pure (a : α) : Keeps I (pure a) := fun _ h => h

theorem keeps_modify {g : Record → Record} (h : ∀ r, I r → I (g r)) : Keeps I (modify g) := h

theorem keeps_get {k : Record → RecordStep α} (h : ∀ r, I r → Keeps I (k r)) :
    Keeps I (get >>= k) := fun r hr => h r hr r hr

theorem keeps_bind {f : RecordStep α} {k : α → RecordStep β} (hf : Keeps I f)
    (hk : ∀ a, Keeps I (k a)) : Keeps I (f >>= k) := by
  intro r hr
  have hfr := hf r hr
  rw [EStateM.run_bind]
  cases h : f.run r with
  | ok a r' =>
    rw [h] at hfr
    exact hk a r' hfr
  | error e r' =>
    rw [h] at hfr
    exact hfr

theorem keeps_liftExcept {x : Except Failure α} {k : α → RecordStep β}
    (h : ∀ a, x = .ok a → Keeps I (k a)) : Keeps I (liftExcept x >>= k) := by
  cases x with
  | ok a => exact fun r hr => h a rfl r hr
  | error e => exact fun r hr => hr

end Keeps

section Keys

theorem keys_register (r : Record) (id : String) : (r.register id).nodes.keys
    = if id ∈ r.nodes.keys then r.nodes.keys else r.nodes.keys ++ [id] := by
  rw [register, Table.insertNew]
  have hcontains : Table.contains r.nodes id = true ↔ id ∈ r.nodes.keys := Table.mem_keys_iff.symm
  by_cases hid : id ∈ r.nodes.keys
  · rw [if_pos hid, if_pos (hcontains.2 hid)]
  · rw [if_neg hid, if_neg (mt hcontains.1 hid), Table.keys_append]
    rfl

theorem keys_update (r : Record) (id : String) (fields : Table String Value) :
    (r.update id fields).nodes.keys
      = if id ∈ r.nodes.keys then r.nodes.keys else r.nodes.keys ++ [id] :=
  Table.keys_insert _ _ _

end Keys

section Nodes

variable {J : Table String Dict → Prop} {id : String}

/-- What holds of the nodes of a record survives that fields of certain names are written at a
node. -/
structure Bears (J : Table String Dict → Prop) (id : String) (names : List String) : Prop where
  register {r : Record} : J r.nodes → J (r.register id).nodes
  update {r : Record} {fields : Table String Value} :
    (∀ e ∈ fields, e.1 ∈ names) → J r.nodes → J (r.update id fields).nodes

/-- The fields that are written where a node starts. -/
def startNames : List String := ["status", "started_at"]

/-- The fields that are written where a node ends. -/
def endNames : List String := ["status", "finished_at", "duration_ms", "outputs", "error"]

theorem bears_keys {ids : List String} (hid : id ∈ ids) (names : List String) :
    Bears (·.keys = ids) id names where
  register {r} h := by rw [keys_register, if_pos (h ▸ hid), h]
  update {r _} _ h := by rw [keys_update, if_pos (h ▸ hid), h]

theorem nodes_addEvent (type node payload : Value) (t : Moment) :
    Keeps (J ·.nodes) (addEvent type node payload t) :=
  keeps_liftExcept fun _ _ => keeps_modify fun _ h => h

theorem nodes_runStarted (t : Moment) : Keeps (J ·.nodes) (runStarted t) :=
  keeps_get fun _ _ => nodes_addEvent _ _ _ t

theorem nodes_nodeStarted (hJ : Bears J id startNames) (t : Moment) :
    Keeps (J ·.nodes) (nodeStarted id t) := by
  refine keeps_bind (keeps_modify fun _ => hJ.register) fun _ => keeps_liftExcept fun _ _ => ?_
  refine keeps_bind (keeps_modify fun _ => hJ.update (by simp [startNames])) fun _ => ?_
  exact keeps_get fun _ _ => nodes_addEvent _ _ _ t

theorem nodes_endNode (hJ : Bears J id endNames) (status : NodeStatus) (t : Moment)
    {x : Except Failure Dict} {name : String} (hname : name ∈ endNames) :
    Keeps (J ·.nodes) (endNode id status t (x.map fun d => [(name, .dict d)])) := by
  refine keeps_bind (keeps_modify fun _ => hJ.register) fun _ => keeps_liftExcept fun _ _ => ?_
  refine keeps_get fun _ _ => keeps_liftExcept fun _ _ => keeps_liftExcept fun fields hfields => ?_
  refine keeps_bind (keeps_modify fun _ => hJ.update ?_) fun _ => keeps_pure _
  obtain ⟨d, -, rfl⟩ := map_eq_ok.1 hfields
  simpa [endNames] using hname

theorem nodes_nodeFinished (hJ : Bears J id endNames) (outputs : Value) (t : Moment) :
    Keeps (J ·.nodes) (nodeFinished id outputs t) :=
  keeps_bind (nodes_endNode hJ .success t (by decide)) fun _ => nodes_addEvent _ _ _ t

theorem nodes_nodeFailed (hJ : Bears J id endNames) (error : Value) (t : Moment) :
    Keeps (J ·.nodes) (nodeFailed id error t) := by
  refine keeps_bind (nodes_endNode hJ .failed t (by decide)) fun _ => ?_
  exact keeps_liftExcept fun _ _ => keeps_liftExcept fun _ _ => nodes_addEvent _ _ _ t

theorem nodes_runFinished (status : RunStatus) (t : Moment) :
    Keeps (J ·.nodes) (runFinished status t) := by
  refine keeps_bind (keeps_modify fun _ h => h) fun _ => keeps_liftExcept fun _ _ => ?_
  exact keeps_bind (keeps_modify fun _ h => h) fun _ => nodes_addEvent _ _ _ t

end Nodes

section Execution

variable {d : Dict} {id : String} {t : Moment}

theorem execution_addEvent (type node payload : Value) (t : Moment) :
    Keeps (·.execution = d) (addEvent type node payload t) :=
  keeps_liftExcept fun _ _ => keeps_modify fun _ h => h

theorem execution_runStarted (t : Moment) : Keeps (·.execution = d) (runStarted t) :=
  keeps_get fun _ _ => execution_addEvent _ _ _ t

theorem execution_nodeStarted (id : String) (t : Moment) :
    Keeps (·.execution = d) (nodeStarted id t) := by
  refine keeps_bind (keeps_modify fun _ h => h) fun _ => keeps_liftExcept fun _ _ => ?_
  refine keeps_bind (keeps_modify fun _ h => h) fun _ => ?_
  exact keeps_get fun _ _ => execution_addEvent _ _ _ t

theorem execution_endNode (id : String) (status : NodeStatus) (t : Moment)
    (more : Except Failure (Table String Value)) :
    Keeps (·.execution = d) (endNode id status t more) := by
  refine keeps_bind (keeps_modify fun _ h => h) fun _ => keeps_liftExcept fun _ _ => ?_
  refine keeps_get fun _ _ => keeps_liftExcept fun _ _ => keeps_liftExcept fun _ _ => ?_
  exact keeps_bind (keeps_modify fun _ h => h) fun _ => keeps_pure _

theorem execution_nodeFinished (id : String) (outputs : Value) (t : Moment) :
    Keeps (·.execution = d) (nodeFinished id outputs t) :=
  keeps_bind (execution_endNode id .success t _) fun _ => execution_addEvent _ _ _ t

theorem execution_nodeFailed (id : String) (error : Value) (t : Moment) :
    Keeps (·.execution = d) (nodeFailed id error t) := by
  refine keeps_bind (execution_endNode id .failed t _) fun _ => ?_
  refine keeps_liftExcept fun _ _ => keeps_liftExcept fun _ _ => ?_
  exact execution_addEvent _ _ _ t

end Execution

section Dated

variable {t : Moment}

/-- A step that needs a date in UTC. -/
def Dated (f : Moment → RecordStep Unit) : Prop :=
  ∀ t e r, t.utc = .error e → ∃ e' r', (f t).run r = .error e' r'

theorem stamp_of_error {e : TimeError} (h : t.utc = .error e) : stamp t = .error (.time e) := by
  rw [stamp, h]
  rfl

theorem dated_addEvent (type node payload : Value) : Dated (addEvent type node payload) := by
  intro t e r h
  rw [addEvent, stamp_of_error h]
  exact ⟨_, _, rfl⟩

theorem dated_runStarted : Dated runStarted := fun t e r h => dated_addEvent _ _ _ t e r h

theorem dated_nodeStarted (id : String) : Dated (nodeStarted id) := by
  intro t e r h
  rw [nodeStarted, stamp_of_error h]
  exact ⟨_, _, rfl⟩

theorem dated_endNode (id : String) (status : NodeStatus)
    (more : Except Failure (Table String Value)) (k : Moment → Nat → RecordStep Unit) :
    Dated fun t => endNode id status t more >>= k t := by
  intro t e r h
  simp only [endNode, stamp_of_error h]
  exact ⟨_, _, rfl⟩

theorem dated_nodeFinished (id : String) (outputs : Value) : Dated (nodeFinished id outputs) :=
  dated_endNode id .success _ _

theorem dated_nodeFailed (id : String) (error : Value) : Dated (nodeFailed id error) :=
  dated_endNode id .failed _ _

theorem dated_runFinished (status : RunStatus) : Dated (runFinished status) := by
  intro t e r h
  rw [runFinished, stamp_of_error h]
  exact ⟨_, _, rfl⟩

end Dated

end Record

end BuildPipeline
