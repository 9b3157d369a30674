import BuildPipeline.Proofs.RecordReplay
import BuildPipeline.Proofs.StoreEquivalence

/-!
Records in stores. A store in memory gives a record back as it is. A store in files sorts the keys
of every mapping, and the nodes of a record are keys: they come back in the order of their
identifiers, not in the order in which they were registered.
-/

namespace BuildPipeline

open BuildPipeline.Time
open DirectoryStore
open Yaml (Portable)

/-- A mapping in the order of its keys, all the way down. -/
def Dict.inKeyOrder (d : Dict) : Dict :=
  match (Value.dict d).sorted with
  | .dict es => es
  | _ => []

section Mappings

variable {Q : Value → Prop} {d : Dict} {name : String}

theorem sorted_dict (d : Dict) : (Value.dict d).sorted = .dict d.inKeyOrder := by
  rw [Dict.inKeyOrder, Value.sorted]

theorem field_inKeyOrder (h : d.Over Q) (name : String) :
    Dict.field d.inKeyOrder name = (Dict.field d name).map Value.sorted := by
  obtain ⟨t, rfl, hdistinct, -⟩ := h
  have horder := Value.sorted_ofTable t
  rw [Value.ofTable, ← Dict.of, sorted_dict, Value.ofTable, ← Dict.of] at horder
  have hperm := (List.mergeSort_perm (Table.mapValues Value.sorted t) Json.keyBefore).symm
  rw [Value.dict.inj horder, Dict.field, Dict.field, Value.get?_of, Value.get?_of,
    Table.get?_of_perm (hdistinct.mapValues _) hperm, Table.get?_mapValues]

end Mappings

namespace Record

/-- A record with its nodes in the order of their identifiers. -/
def byId (r : Record) : Record := { r with nodes := r.nodes.mergeSort Json.keyBefore }

/-- A record with everything in the order of its keys. -/
def inKeyOrder (r : Record) : Record where
  execution := r.execution.inKeyOrder
  nodes := r.byId.nodes.mapValues Dict.inKeyOrder
  events := r.events.map Dict.inKeyOrder

/-- Two records with the same execution fields, the same entries of nodes, and the same events in
the same order. -/
structure Same (r r' : Record) : Prop where
  execution : Value.Reordered (.dict r.execution) (.dict r'.execution)
  nodes : Value.Reordered (.ofTable (r.nodes.mapValues .dict)) (.ofTable (r'.nodes.mapValues .dict))
  events : Value.Reordered (.list (r.events.map .dict)) (.list (r'.events.map .dict))

variable {Q : Value → Prop} {r : Record} {d : Dict}

theorem byId_eq_iff : r.byId = r ↔ r.nodes.keys.Pairwise (· ≤ ·) := by
  have hpairwise : r.nodes.keys.Pairwise (· ≤ ·) ↔ r.nodes.Pairwise fun e f => e.1 ≤ f.1 :=
    List.pairwise_map
  rw [hpairwise]
  constructor
  · intro h
    rw [← h]
    exact Json.pairwise_mergeSort_keyBefore r.nodes
  · intro h
    rw [byId, List.mergeSort_of_pairwise (h.imp Json.keyBefore_iff.2)]

theorem byId_nodes_of_pair {e f : String × Dict} (h : r.nodes = [e, f]) (hlt : f.1 < e.1) :
    r.byId.nodes = [f, e] := by
  have hne : e.1 ≠ f.1 := fun heq => String.lt_irrefl _ (heq ▸ hlt)
  have hdistinct : Table.Distinct [e, f] := by simpa [Table.Distinct] using hne
  have hsorted : [f, e].Pairwise fun e f => Json.keyBefore e f := by
    simpa [Json.keyBefore] using String.lt_asymm hlt
  rw [byId, h, (Json.mergeSort_eq_iff_perm hdistinct).2 (.swap f e []),
    List.mergeSort_of_pairwise hsorted]

section Reading

theorem read_of_fields (hexecution : Dict.field d "execution" = some (.dict r.execution))
    (hnodes : Dict.field d "nodes" = some (.ofTable (r.nodes.mapValues .dict)))
    (hevents : Dict.field d "events" = some (.list (r.events.map .dict)))
    (hdistinct : r.nodes.Distinct) : Record.read (.dict d) = .ok r := by
  have hmappings : (r.events.map Value.dict).mapM Value.toDict
      = (.ok r.events : Except ShapeError _) := by
    rw [mapM_eq_ok, List.forall₂_map_left_iff]
    exact List.forall₂_same.2 fun e _ => rfl
  rw [Value.ofTable, ← Dict.of] at hnodes
  simp only [Record.read, Value.get, hexecution, hnodes, hevents, ok_bind, Option.getD_some,
    Value.toDict_dict, Value.items_dict, Value.elements_list]
  rw [Value.mapM_toDict_of, hmappings, ok_bind, ok_bind, Table.ofList_of_distinct hdistinct]
  rfl

section Document

variable (r)

theorem execution_document : Dict.field r.document "execution" = some (.dict r.execution) := by
  simp [document, Dict.of, Dict.field_cons]

theorem nodes_document :
    Dict.field r.document "nodes" = some (.ofTable (r.nodes.mapValues .dict)) := by
  simp [document, Dict.of, Dict.field_cons]

theorem events_document : Dict.field r.document "events" = some (.list (r.events.map .dict)) := by
  simp [document, Dict.of, Dict.field_cons]

theorem over_document : r.document.Over fun _ => True :=
  Dict.over_of (by simp [Table.Distinct]) fun _ _ => trivial

end Document

theorem read_document (h : r.nodes.Distinct) : Record.read (.dict r.document) = .ok r :=
  read_of_fields (execution_document r) (nodes_document r) (events_document r) h

theorem portable_nodes (h : r.Over Portable) : Portable (.ofTable (r.nodes.mapValues .dict)) :=
  portable_ofTable (h.distinct.mapValues _) <| List.forall_mem_map.2 fun e he =>
    over_portable_iff.1 (h.nodes e he).mapping

theorem portable_events (h : r.Over Portable) : Portable (.list (r.events.map .dict)) :=
  portable_list <| List.forall_mem_map.2 fun e he => over_portable_iff.1 (h.events e he)

theorem portable_document (h : r.Over Portable) : Portable (.dict r.document) := by
  refine portable_of (by simp [Table.Distinct]) ?_
  simpa using ⟨over_portable_iff.1 h.execution, portable_nodes h, portable_events h⟩

section Sorted

variable (r)

theorem sorted_execution : (Value.dict r.execution).sorted = .dict r.inKeyOrder.execution :=
  sorted_dict r.execution

theorem sorted_nodes : Value.sorted (.ofTable (r.nodes.mapValues .dict))
    = .ofTable (r.inKeyOrder.nodes.mapValues .dict) := by
  rw [Value.sorted_ofTable, inKeyOrder, byId, ← Json.mapValues_mergeSort,
    ← Json.mapValues_mergeSort]
  simp [Table.mapValues, Function.comp_def, sorted_dict]

theorem sorted_events : Value.sorted (.list (r.events.map .dict))
    = .list (r.inKeyOrder.events.map .dict) := by
  rw [Value.sorted_list, List.map_map, inKeyOrder, List.map_map]
  exact congrArg _ (List.map_congr_left fun d _ => sorted_dict d)

end Sorted

theorem distinct_inKeyOrder (h : r.nodes.Distinct) : r.inKeyOrder.nodes.Distinct :=
  (h.perm (List.mergeSort_perm r.nodes Json.keyBefore).symm).mapValues _

/-- What is read back from a file: the record with everything in the order of its keys. -/
theorem read_sorted (h : r.nodes.Distinct) :
    Record.read (Value.dict r.document).sorted = .ok r.inKeyOrder := by
  rw [sorted_dict]
  refine read_of_fields ?_ ?_ ?_ (distinct_inKeyOrder h)
  · rw [field_inKeyOrder r.over_document, execution_document, ← sorted_execution]
    rfl
  · rw [field_inKeyOrder r.over_document, nodes_document, ← sorted_nodes]
    rfl
  · rw [field_inKeyOrder r.over_document, events_document, ← sorted_events]
    rfl

theorem same_inKeyOrder (h : r.Over Portable) : r.inKeyOrder.Same r where
  execution := by
    rw [← sorted_execution]
    exact Value.reordered_sorted (over_portable_iff.1 h.execution)
  nodes := by
    rw [← sorted_nodes]
    exact Value.reordered_sorted (portable_nodes h)
  events := by
    rw [← sorted_events]
    exact Value.reordered_sorted (portable_events h)

theorem item_inKeyOrder (h : IsNode Q d) :
    (Value.dict d.inKeyOrder).item "status" = (Value.dict d).item "status" := by
  rw [Value.item, Value.item, field_inKeyOrder h.mapping]
  cases hstatus : Dict.field d "status" with
  | none => rfl
  | some v =>
    obtain ⟨s, rfl⟩ := h.status v hstatus
    rfl

theorem statuses_inKeyOrder (h : r.Over Q) : r.inKeyOrder.statuses = r.byId.statuses := by
  rw [statuses, inKeyOrder, Table.mapValues, List.mapM_map]
  refine mapM_congr fun e he => item_inKeyOrder (h.nodes e ?_)
  exact List.mem_mergeSort.1 he

theorem nodeStatus_inKeyOrder (h : r.Over Q) (id : String) :
    r.inKeyOrder.nodeStatus id = r.nodeStatus id := by
  have hperm := (List.mergeSort_perm r.nodes Json.keyBefore).symm
  have hfound : Table.get? r.inKeyOrder.nodes id
      = (Table.get? r.nodes id).map Dict.inKeyOrder := by
    rw [inKeyOrder, Table.get?_mapValues, byId, Table.get?_of_perm h.distinct hperm]
  rw [nodeStatus, nodeStatus, hfound]
  cases hid : Table.get? r.nodes id with
  | none => rfl
  | some d => exact item_inKeyOrder (h.nodes (id, d) (Table.mem_of_get?_eq hid))

end Reading

end Record

section Storage

variable {r r' : Record} {c k : String}

/-- A record is put in a store and read back from what the store then shows. -/
def Backing.Returns (b : Backing) (c k : String) (r r' : Record) : Prop :=
  ∃ b' v, b.put c k (.dict r.document) = .ok b' ∧ b'.get c k = .ok (some v)
    ∧ Record.read v = .ok r'

/-- A store gives a record back with the same content and with its statuses in the same order. -/
def Backing.Preserves (b : Backing) (c k : String) (r : Record) : Prop :=
  ∃ r', b.Returns c k r r' ∧ r'.Same r ∧ r'.statuses = r.statuses

theorem returns_memory (m : MemoryStore) (c k : String) (h : r.nodes.Distinct) :
    (Backing.memory m).Returns c k r r' ↔ r' = r := by
  have hget : (m.put c k (.dict r.document)).get c k = some (.dict r.document) := by
    rw [MemoryStore.get, MemoryStore.collection_put, if_pos rfl, Table.get?_insert,
      if_pos (beq_self_eq_true k)]
    rfl
  constructor
  · rintro ⟨_, v, ⟨⟩, hv, hread⟩
    rw [Backing.get, hget] at hv
    cases hv
    rw [Record.read_document h] at hread
    exact (Except.ok.inj hread).symm
  · rintro rfl
    exact ⟨_, _, rfl, congrArg Except.ok hget, Record.read_document h⟩

theorem returns_directory (s : DirectoryStore) (hc : SafeName c) (hk : SafeName k)
    (h : r.Over Portable) : (Backing.directory s).Returns c k r r'
      ↔ (Value.dict r.document).Short ∧ r' = r.inKeyOrder := by
  have hportable := Record.portable_document h
  by_cases hshort : (Value.dict r.document).Short
  · obtain ⟨text, htext⟩ := (Json.exists_write_iff (l := .indented) hportable).2 hshort
    obtain ⟨s', hput⟩ : ∃ s', s.put c k (.dict r.document) = .ok s' :=
      ⟨_, put_eq_ok.2 ⟨⟨hc.isSafe, hk.isSafe⟩, text, htext, rfl⟩⟩
    have hget := get_put_self hput (.of_portable hportable)
    have hread := Record.read_sorted h.distinct
    rw [sorted_dict] at hget hread
    constructor
    · rintro ⟨b', v, hb', hv, hr'⟩
      rw [Backing.put, hput] at hb'
      cases hb'
      rw [Backing.get, hget] at hv
      cases hv
      rw [hread] at hr'
      exact ⟨hshort, (Except.ok.inj hr').symm⟩
    · rintro ⟨-, rfl⟩
      refine ⟨.directory s', _, ?_, hget, hread⟩
      rw [Backing.put, hput]
      rfl
  · refine iff_of_false ?_ fun h => hshort h.1
    rintro ⟨b', v, hb', -⟩
    rw [Backing.put, put_of_isSafe s hc.isSafe hk.isSafe,
      Json.write_eq_error (.of_portable hportable) hshort] at hb'
    cases hb'

theorem preserves_directory_iff (s : DirectoryStore) (hc : SafeName c) (hk : SafeName k)
    (h : r.Over Portable) : (Backing.directory s).Preserves c k r
      ↔ (Value.dict r.document).Short ∧ r.byId.statuses = r.statuses := by
  have hstatuses := Record.statuses_inKeyOrder h
  constructor
  · rintro ⟨r', hreturns, -, hsame⟩
    obtain ⟨hshort, rfl⟩ := (returns_directory s hc hk h).1 hreturns
    exact ⟨hshort, hstatuses.symm.trans hsame⟩
  · rintro ⟨hshort, horder⟩
    exact ⟨r.inKeyOrder, (returns_directory s hc hk h).2 ⟨hshort, rfl⟩, Record.same_inKeyOrder h,
      hstatuses.trans horder⟩

/-- A record that some actions led to. A store in memory gives it back as it is. A store in files
takes it if no whole number in it has too many digits, and gives it back with the same content, each
node with its status, but with the statuses in the order of the identifiers: the record is preserved
exactly if that is the order of the statuses anyway, as it is if the nodes were registered in the
order of their identifiers. -/
theorem record_preserved_iff {run : RunIdentity} {entries : List (String × String)} {t : Moment}
    {hash : Value} {r₀ : Record} (hcreate : Record.create run entries t hash = .ok r₀)
    (as : List (RecordAction × Moment)) :
    let r := r₀.replay as
    (∀ m c k r', (Backing.memory m).Returns c k r r' ↔ r' = r)
    ∧ ((∀ v ∈ [run.executionId, run.pipelineId, run.userId, run.projectId, hash], Portable v) →
      (∀ a ∈ as, ∀ d ∈ a.1.payloads, Portable (.dict d)) →
      ∀ s c k, SafeName c → SafeName k →
        ((Backing.directory s).Preserves c k r
          ↔ (Value.dict r.document).Short ∧ r.byId.statuses = r.statuses)
        ∧ ((Value.dict r.document).Short → ∃ r', (Backing.directory s).Returns c k r r'
          ∧ r'.Same r ∧ (∀ id, r'.nodeStatus id = r.nodeStatus id)
          ∧ r'.statuses = r.byId.statuses))
    ∧ (r.nodes.keys.Pairwise (· ≤ ·) → r.byId.statuses = r.statuses) := by
  intro r
  have hshape : r.Over fun _ => True :=
    (Record.over_create admits_true (fun _ _ => trivial) hcreate).replay
      admits_true fun _ _ _ _ => trivial
  refine ⟨fun m c k r' => returns_memory m c k hshape.distinct, ?files, ?ascending⟩
  case ascending =>
    intro h
    rw [Record.byId_eq_iff.2 h]
  case files =>
    intro hvalues has s c k hc hk
    have hr : r.Over Portable :=
      (Record.over_create admits_portable hvalues hcreate).replay admits_portable has
    exact ⟨preserves_directory_iff s hc hk hr, fun hshort => ⟨r.inKeyOrder,
      (returns_directory s hc hk hr).2 ⟨hshort, rfl⟩, Record.same_inKeyOrder hr,
      Record.nodeStatus_inKeyOrder hr, Record.statuses_inKeyOrder hr⟩⟩

def midnight : Moment := ⟨63904118400000000, some 0⟩

def singleRun : RunIdentity := ⟨.str "exec-1", .str "p", .str "u", .str "proj"⟩

/-- A run of two nodes, one after the other, whose second node fails. -/
def brokenRun : List (RecordAction × Moment) :=
  [(.runStarted, midnight), (.nodeStarted "a", midnight),
    (.nodeFinished "a" (some (Dict.of [("build", .int 1)])), midnight),
    (.nodeStarted "b", midnight),
    (.nodeFailed "b" (Dict.of [("type", .str "Timeout"), ("message", .str "late")]), midnight),
    (.runFinished .failed, midnight)]

/-- Nodes that were registered in the order of their identifiers keep their statuses in order. -/
theorem record_preserved_iff_brokenRun :
    ∃ r₀, Record.create singleRun [("a", "build"), ("b", "deploy")] midnight .null = .ok r₀
      ∧ (r₀.replay brokenRun).statuses = .ok [.str "success", .str "failed"]
      ∧ (Backing.memory .empty).Returns "executions" "exec-1" (r₀.replay brokenRun)
        (r₀.replay brokenRun)
      ∧ (Backing.directory (.empty ["store"])).Preserves "executions" "exec-1"
        (r₀.replay brokenRun) := by
  have hcreate : Record.create singleRun [("a", "build"), ("b", "deploy")] midnight .null
      = .ok _ := rfl
  refine ⟨_, hcreate, rfl, ?_⟩
  obtain ⟨hmemory, hfiles, hascending⟩ := record_preserved_iff hcreate brokenRun
  refine ⟨(hmemory .empty _ _ _).2 rfl, ?_⟩
  have hpreserved := (hfiles (by decide) (by decide) (.empty ["store"]) "executions" "exec-1"
    (by decide) (by decide)).1
  refine hpreserved.2 ⟨?_, ?_⟩
  · decide +kernel
  · exact hascending (by decide)

/-- Of two nodes the one with the later identifier was registered first, and runs. A store in files
takes the record and shows it with the statuses the other way round. -/
theorem record_not_preserved :
    ∃ r₀, Record.create singleRun [("b", "build"), ("a", "deploy")] midnight .null = .ok r₀
      ∧ ∃ r, r₀.replay [(.runStarted, midnight), (.nodeStarted "b", midnight)] = r
        ∧ r.statuses = .ok [.str "running", .str "pending"]
        ∧ (∃ r', (Backing.directory (.empty ["store"])).Returns "executions" "exec-1" r r'
          ∧ r'.statuses = .ok [.str "pending", .str "running"])
        ∧ ¬(Backing.directory (.empty ["store"])).Preserves "executions" "exec-1" r := by
  have hcreate : Record.create singleRun [("b", "build"), ("a", "deploy")] midnight .null
      = .ok _ := rfl
  refine ⟨_, hcreate, _, rfl, rfl, ?_⟩
  generalize hr : Record.replay _ _ = r
  have hover : r.Over Portable := by
    rw [← hr]
    exact (Record.over_create admits_portable (by decide) hcreate).replay admits_portable
      (by decide)
  have hstatuses : r.statuses = .ok [.str "running", .str "pending"] := by
    rw [← hr]
    rfl
  have hbyId : r.byId.statuses = .ok [.str "pending", .str "running"] := by
    rw [← hr, Record.statuses, Record.byId_nodes_of_pair rfl (by decide)]
    rfl
  have hshort : (Value.dict r.document).Short := by
    rw [← hr]
    decide +kernel
  have hreturns := (returns_directory (.empty ["store"]) (c := "executions") (k := "exec-1")
    (by decide) (by decide) hover).2 ⟨hshort, rfl⟩
  refine ⟨⟨_, hreturns, (Record.statuses_inKeyOrder hover).trans hbyId⟩, fun h => ?_⟩
  have hsame := ((preserves_directory_iff _ (by decide) (by decide) hover).1 h).2
  rw [hbyId, hstatuses] at hsame
  simp [Value.str] at hsame

end Storage

end BuildPipeline
