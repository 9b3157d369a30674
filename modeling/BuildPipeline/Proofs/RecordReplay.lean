import BuildPipeline.Proofs.Json.Reordering
import BuildPipeline.Proofs.RecordSteps

/-!
Records along a run. A record is made of mappings from distinct texts to values of some kind, as
long as everything that is written to it is of that kind; a step that fails half-way leaves it so.
-/

namespace BuildPipeline

open BuildPipeline.Time
open Yaml (Portable portableEntries_iff)

/-- What is recorded of a run. -/
inductive RecordAction
  | runStarted
  | nodeStarted (id : String)
  | nodeFinished (id : String) (outputs : Option Dict)
  | nodeFailed (id : String) (error : Dict)
  | runFinished (status : RunStatus)

namespace RecordAction

def step (t : Moment) : RecordAction → RecordStep Unit
  | .runStarted => Record.runStarted t
  | .nodeStarted id => Record.nodeStarted id t
  | .nodeFinished id outputs => Record.nodeFinished id ((outputs.map .dict).getD .null) t
  | .nodeFailed id error => Record.nodeFailed id (.dict error) t
  | .runFinished status => Record.runFinished status t

/-- A node without outputs ends with an empty mapping. -/
theorem step_nodeFinished (id : String) (outputs : Option Dict) (t : Moment) :
    step t (.nodeFinished id outputs) = Record.nodeFinished id (.dict (outputs.getD [])) t := by
  rcases outputs with _ | _ | _ <;> rfl

/-- The mappings that an action brings along. -/
def payloads : RecordAction → List Dict
  | .nodeFinished _ outputs => outputs.toList
  | .nodeFailed _ error => [error]
  | _ => []

end RecordAction

/-- A record after some actions. One that fails leaves what it did before. -/
def Record.replay (r : Record) (as : List (RecordAction × Moment)) : Record :=
  as.foldl (fun r a => stateOf ((a.1.step a.2).run r)) r

section Kinds

variable {d : Dict}

theorem over_portable_iff : d.Over Portable ↔ Portable (.dict d) := by
  constructor
  · rintro ⟨t, rfl, hdistinct, ht⟩
    exact portable_of hdistinct ht
  · intro h
    obtain ⟨t, rfl, ht⟩ := exists_table h.1 fun e he => (portableEntries_iff.1 h.2 e he).1
    refine Dict.over_of ht fun e he => ?_
    exact (portableEntries_iff.1 h.2 (.str e.1, e.2) (List.mem_map_of_mem he)).2

end Kinds

namespace Record

/-- The mapping of a node. Its status is a text, if it has one. -/
structure IsNode (Q : Value → Prop) (d : Dict) : Prop where
  mapping : d.Over Q
  status : ∀ v, Dict.field d "status" = some v → ∃ s : String, v = .str s

/-- Every part of a record is a mapping from distinct texts to values of a kind. -/
structure Over (Q : Value → Prop) (r : Record) : Prop where
  execution : r.execution.Over Q
  distinct : r.nodes.Distinct
  nodes : ∀ e ∈ r.nodes, IsNode Q e.2
  events : ∀ e ∈ r.events, Dict.Over Q e

variable {Q : Value → Prop} {r : Record} {d : Dict} {fields : Table String Value} {id : String}
  {name : String} {t : Moment} {v : Value}

theorem isNode_nil : IsNode Q [] := ⟨Dict.over_nil, fun _ h => nomatch h⟩

theorem IsNode.set (h : IsNode Q d) (hv : Q v) (hs : name = "status" → ∃ s : String, v = .str s) :
    IsNode Q (Dict.set d name v) := by
  refine ⟨h.mapping.set name hv, fun w hw => ?_⟩
  rw [Dict.field_set] at hw
  split at hw
  · rename_i hname
    obtain ⟨s, rfl⟩ := hs hname
    exact ⟨s, (Option.some.inj hw).symm⟩
  · exact h.status w hw

theorem IsNode.union (h : IsNode Q d) (hfields : ∀ e ∈ fields, Q e.2)
    (hs : ∀ e ∈ fields, e.1 = "status" → ∃ s : String, e.2 = .str s) :
    IsNode Q (Table.union d (Dict.of fields)) := by
  induction fields generalizing d with
  | nil => exact h
  | cons e fields ih =>
    obtain ⟨he, hfields⟩ := List.forall_mem_cons.1 hfields
    obtain ⟨hes, hs⟩ := List.forall_mem_cons.1 hs
    exact ih (h.set he hes) hfields hs

theorem Over.node (h : r.Over Q) (id : String) : IsNode Q (r.node id) := by
  rw [Record.node, Table.getD]
  cases hid : Table.get? r.nodes id with
  | none => exact isNode_nil
  | some d => exact h.nodes (id, d) (Table.mem_of_get?_eq hid)

theorem Over.insert (h : r.Over Q) (hd : IsNode Q d) (id : String) :
    Over Q { r with nodes := Table.insert r.nodes id d } where
  execution := h.execution
  distinct := h.distinct.insert id d
  nodes e he := by
    rcases Table.mem_insert he with he | rfl
    · exact h.nodes e he
    · exact hd
  events := h.events

theorem Over.register (hQ : Admits Q) (h : r.Over Q) (id : String) : (r.register id).Over Q := by
  rw [Record.register, Table.insertNew]
  split
  · exact h
  · rename_i hnew
    have hfresh : Table.Fresh r.nodes id := by
      rw [Table.fresh_iff, Table.mem_keys_iff]
      exact hnew
    rw [← Table.insert_of_fresh hfresh]
    exact h.insert (isNode_nil.set (hQ.text id) (by simp)) id

theorem Over.update (h : r.Over Q) (id : String) (hfields : ∀ e ∈ fields, Q e.2)
    (hs : ∀ e ∈ fields, e.1 = "status" → ∃ s : String, e.2 = .str s) :
    (r.update id fields).Over Q :=
  h.insert ((h.node id).union hfields hs) id

section Steps

variable (hQ : Admits Q)

include hQ

theorem keeps_addEvent {type node payload : Value} (htype : Q type) (hnode : Q node)
    (hpayload : Q payload) (t : Moment) : Keeps (Over Q) (addEvent type node payload t) := by
  refine keeps_liftExcept fun time _ => keeps_modify fun r h => { h with events := ?_ }
  refine List.forall_mem_append.2 ⟨h.events, List.forall_mem_singleton.2 ?_⟩
  refine Dict.over_of ?_ ?_
  · rw [present, present]
    split <;> split <;> simp [Table.Distinct]
  · rw [present, present]
    split <;> split <;> simp [htype, hnode, hpayload, hQ.text]

theorem keeps_runStarted (t : Moment) : Keeps (Over Q) (runStarted t) := by
  refine keeps_get fun r _ => keeps_addEvent hQ (hQ.text _) hQ.null (hQ.dict _ ?_) t
  exact Dict.over_of (List.pairwise_singleton _ _) (List.forall_mem_singleton.2 (hQ.texts _))

theorem keeps_nodeStarted (id : String) (t : Moment) : Keeps (Over Q) (nodeStarted id t) := by
  refine keeps_bind (keeps_modify fun r h => h.register hQ id) fun _ => ?_
  refine keeps_liftExcept fun time _ => keeps_bind (keeps_modify fun r h => ?_) fun _ => ?_
  · exact h.update id (by simp [hQ.text]) (by simp)
  refine keeps_get fun r h => keeps_addEvent hQ (hQ.text _) (hQ.text _) (hQ.dict _ ?_) t
  refine Dict.over_of (List.pairwise_singleton _ _) (List.forall_mem_singleton.2 ?_)
  dsimp only
  rw [Dict.fieldD]
  cases htype : Dict.field (r.node id) "type" with
  | none => exact hQ.null
  | some v => exact (h.node id).mapping.field htype

theorem keeps_endNode (id : String) (status : NodeStatus) (t : Moment)
    {more : Except Failure (Table String Value)}
    (hmore : ∀ fields, more = .ok fields → ∀ e ∈ fields, Q e.2 ∧ e.1 ≠ "status") :
    Keeps (Over Q) (endNode id status t more) := by
  refine keeps_bind (keeps_modify fun r h => h.register hQ id) fun _ => ?_
  refine keeps_liftExcept fun time _ => keeps_get fun r _ => ?_
  refine keeps_liftExcept fun ms _ => keeps_liftExcept fun fields hfields => ?_
  refine keeps_bind (keeps_modify fun r h => ?_) fun _ => keeps_pure ms
  refine h.update id (List.forall_mem_append.2 ⟨?_, ?_⟩) (List.forall_mem_append.2 ⟨?_, ?_⟩)
  · simp [hQ.text, hQ.int]
  · exact fun e he => (hmore fields hfields e he).1
  · simp
  · exact fun e he hs => absurd hs (hmore fields hfields e he).2

theorem keeps_nodeFinished (id : String) {outputs : Option Dict}
    (houtputs : ∀ d ∈ outputs.toList, Q (.dict d)) (t : Moment) :
    Keeps (Over Q) (nodeFinished id ((outputs.map .dict).getD .null) t) := by
  refine keeps_bind (keeps_endNode hQ id .success t fun fields hfields => ?_) fun ms => ?_
  · have hdict : Q (.dict (outputs.getD [])) := by
      cases outputs with
      | none => exact hQ.dict _ Dict.over_nil
      | some d => exact houtputs d List.mem_cons_self
    have hmore : ((((outputs.map Value.dict).getD .null).orElse (.dict [])).toDict.mapError
        Failure.shape).map (fun d => [("outputs", Value.dict d)])
          = .ok [("outputs", .dict (outputs.getD []))] := by
      rcases outputs with _ | _ | _ <;> rfl
    cases hmore.symm.trans hfields
    simpa using hdict
  · refine keeps_addEvent hQ (hQ.text _) (hQ.text _) (hQ.dict _ (Dict.over_of ?_ ?_)) t
    · simp [Table.Distinct]
    · simp [hQ.text, hQ.int]

theorem keeps_nodeFailed (id : String) {error : Dict} (herror : Q (.dict error)) (t : Moment) :
    Keeps (Over Q) (nodeFailed id (.dict error) t) := by
  have hfield (name : String) : Q ((Dict.field error name).getD .null) := by
    cases hname : Dict.field error name with
    | none => exact hQ.null
    | some v => exact hQ.field error name v herror hname
  refine keeps_bind (keeps_endNode hQ id .failed t fun fields hfields => ?_) fun ms => ?_
  · cases hfields
    simpa using herror
  · refine keeps_liftExcept fun type htype => keeps_liftExcept fun message hmessage => ?_
    cases htype
    cases hmessage
    refine keeps_addEvent hQ (hQ.text _) (hQ.text _) (hQ.dict _ (Dict.over_of ?_ ?_)) t
    · simp [Table.Distinct]
    · simp [hfield]

theorem keeps_runFinished (status : RunStatus) (t : Moment) :
    Keeps (Over Q) (runFinished status t) := by
  refine keeps_bind (keeps_modify fun r h => ?_) fun _ => keeps_liftExcept fun time _ => ?_
  · exact { h with execution := h.execution.set _ (hQ.text _) }
  refine keeps_bind (keeps_modify fun r h => ?_) fun _ => ?_
  · exact { h with execution := h.execution.set _ (hQ.text _) }
  refine keeps_addEvent hQ (hQ.text _) hQ.null (hQ.dict _ (Dict.over_of ?_ ?_)) t
  · exact List.pairwise_singleton _ _
  · exact List.forall_mem_singleton.2 (hQ.text _)

theorem keeps_step (a : RecordAction) (ha : ∀ d ∈ a.payloads, Q (.dict d)) (t : Moment) :
    Keeps (Over Q) (a.step t) := by
  cases a with
  | runStarted => exact keeps_runStarted hQ t
  | nodeStarted id => exact keeps_nodeStarted hQ id t
  | nodeFinished id outputs => exact keeps_nodeFinished hQ id ha t
  | nodeFailed id error => exact keeps_nodeFailed hQ id (ha error List.mem_cons_self) t
  | runFinished status => exact keeps_runFinished hQ status t

/-- What the actions of a run leave of a record. -/
theorem Over.replay (h : r.Over Q) {as : List (RecordAction × Moment)}
    (has : ∀ a ∈ as, ∀ d ∈ a.1.payloads, Q (.dict d)) : (r.replay as).Over Q := by
  induction as generalizing r with
  | nil => exact h
  | cons a as ih =>
    obtain ⟨ha, has⟩ := List.forall_mem_cons.1 has
    exact ih (keeps_step hQ a.1 ha a.2 r h) has

theorem over_create {run : RunIdentity} {entries : List (String × String)} {hash : Value}
    (hvalues : ∀ v ∈ [run.executionId, run.pipelineId, run.userId, run.projectId, hash], Q v)
    (h : create run entries t hash = .ok r) : r.Over Q := by
  simp only [List.forall_mem_cons] at hvalues
  obtain ⟨hexecution, hpipeline, huser, hproject, hhash, -⟩ := hvalues
  obtain ⟨started, -, h⟩ := bind_eq_ok.1 h
  cases h
  refine ⟨Dict.over_of ?_ ?_, Table.distinct_ofList _, fun e he => ?_, by simp⟩
  · simp [Table.Distinct]
  · simp [hexecution, hpipeline, huser, hproject, hhash, hQ.text, hQ.null]
  · obtain ⟨n, -, rfl⟩ := List.mem_map.1 ((Table.mem_union he).resolve_left List.not_mem_nil)
    refine ⟨Dict.over_of ?_ ?_, fun v hv => ?_⟩
    · simp [Table.Distinct]
    · simp [hQ.text]
    · simp [Dict.of, Dict.field_cons] at hv
      exact ⟨_, hv.symm⟩

end Steps

end Record

end BuildPipeline
