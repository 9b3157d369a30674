import BuildPipeline.Proofs.GraphLaws
import BuildPipeline.Proofs.LowerLaws

/-!
Fields under any spelling. The fields that are read from a mapping depend on the names of its keys,
on the key that is a name itself, and on which spelling came first; a graph is read the same under
every spelling of the keys of its nodes.
-/

namespace BuildPipeline

/-- The name that a key is a spelling of. -/
def Scalar.fieldName (k : Scalar) : String := snake k.text

/-- The value of the first key that is a spelling of a name. -/
def Dict.spelled (d : Dict) (name : String) : Option Value :=
  (d.find? fun e => e.1.fieldName == name).map (·.2)

section Fields

variable {es : Dict} {t : Table String Value} {k : Scalar} {name : String} {v : Value}

theorem isName_iff : isName k name ↔ k = .str name := decide_eq_true_iff

theorem beq_str : (k == .str name) = isName k name := by
  rw [Bool.eq_iff_iff, isName_iff, Scalar.beq_iff]
  refine ⟨fun h => ?_, fun h => h ▸ rfl⟩
  cases k with
  | str s =>
    cases h
    rfl
  | float x =>
    rw [Scalar.identity] at h
    split at h <;> cases h
  | moment t =>
    rw [Scalar.identity] at h
    split at h <;> cases h
  | _ => cases h

/-- The fields of a mapping added to those of a table, as `addFields` adds them to a mapping. -/
def fieldsOver (t : Table String Value) : Dict → Table String Value
  | [] => t
  | (k, v) :: es =>
    if t.contains k.fieldName && !isName k k.fieldName then fieldsOver t es
    else fieldsOver (t.insert k.fieldName (fieldValue k.fieldName v)) es

theorem addFields_of (t : Table String Value) (es : Dict) :
    addFields (.of t) es = .of (fieldsOver t es) := by
  induction es generalizing t with
  | nil => rw [addFields, fieldsOver]
  | cons e es ih =>
    rw [addFields, fieldsOver, Table.contains, Value.get?_of, Dict.set_of, ih, ih]
    exact (apply_ite Dict.of _ _ _).symm

theorem normalizeFields_eq (d : Dict) : normalizeFields d = .of (fieldsOver [] d) :=
  addFields_of [] d

theorem keys_of (t : Table String Value) : Table.keys (Dict.of t) = t.keys.map .str := by
  simp [Table.keys, Dict.of]

theorem keys_fieldsOver (t : Table String Value) (es : Dict) :
    (fieldsOver t es).keys = (es.map (·.1.fieldName)).foldl
      (fun seen a => if seen.contains a then seen else seen ++ [a]) t.keys := by
  induction es generalizing t with
  | nil => rfl
  | cons e es ih =>
    have hmem : t.keys.contains e.1.fieldName = t.contains e.1.fieldName := by
      rw [Bool.eq_iff_iff, List.contains_iff_mem, Table.mem_keys_iff, Table.contains]
    rw [fieldsOver, List.map_cons, List.foldl_cons, hmem]
    split
    · rename_i h
      rw [ih, if_pos (Bool.and_eq_true_iff.1 h).1]
    · rw [ih, Table.keys_insert_eq]

theorem distinct_fieldsOver (ht : t.Distinct) (es : Dict) : (fieldsOver t es).Distinct := by
  induction es generalizing t with
  | nil => exact ht
  | cons e es ih =>
    rw [fieldsOver]
    split
    · exact ih ht
    · exact ih (ht.insert _ _)

theorem mem_fieldsOver {f : String × Value} (h : f ∈ fieldsOver t es) :
    f ∈ t ∨ ∃ e ∈ es, f = (e.1.fieldName, fieldValue e.1.fieldName e.2) := by
  induction es generalizing t with
  | nil => exact .inl h
  | cons e es ih =>
    have hrest : (∃ e ∈ es, f = (e.1.fieldName, fieldValue e.1.fieldName e.2))
        → ∃ e' ∈ e :: es, f = (e'.1.fieldName, fieldValue e'.1.fieldName e'.2) :=
      fun ⟨e', he', hf⟩ => ⟨e', List.mem_cons_of_mem e he', hf⟩
    rw [fieldsOver] at h
    split at h
    · exact (ih h).imp_right hrest
    · rcases ih h with h | h
      · exact (Table.mem_insert h).imp_right fun hf => ⟨e, List.mem_cons_self, hf⟩
      · exact .inr (hrest h)

theorem field_cons (e : Scalar × Value) (es : Dict) (name : String) :
    Dict.field (e :: es) name = if isName e.1 name then some e.2 else Dict.field es name := by
  rw [Dict.field, Table.get?, beq_str, Dict.field]

theorem spelled_cons (e : Scalar × Value) (es : Dict) (name : String) :
    Dict.spelled (e :: es) name
      = if e.1.fieldName = name then some e.2 else Dict.spelled es name := by
  rw [Dict.spelled, List.find?_cons, Dict.spelled]
  by_cases h : e.1.fieldName = name
  · rw [h, beq_self_eq_true, if_pos rfl]
    rfl
  · rw [beq_eq_false_iff_ne.2 h, if_neg h]

/-- The key that is the name wins; without it the value that is known stays, and without that the
first spelling gives it. -/
theorem get?_fieldsOver (hes : Table.Distinct es) (hname : snake name = name) :
    (fieldsOver t es).get? name = (((Dict.field es name).map (fieldValue name)).or
      (t.get? name)).or ((Dict.spelled es name).map (fieldValue name)) := by
  induction es generalizing t with
  | nil => simp [fieldsOver, Dict.spelled]
  | cons e es ih =>
    have htail := (List.pairwise_cons.1 hes).2
    rw [fieldsOver, field_cons, spelled_cons]
    by_cases hk : isName e.1 name
    · have hnone : Dict.field es name = none := by
        rw [← beq_str] at hk
        exact Table.get?_tail_eq_none hes hk
      have hn : e.1.fieldName = name := by rw [isName_iff.1 hk]; exact hname
      rw [hn, hk, Bool.not_true, Bool.and_false, if_neg Bool.false_ne_true, ih htail, hnone,
        Table.get?_insert]
      simp
    · rw [if_neg hk]
      by_cases hn : e.1.fieldName = name
      · rw [hn, Bool.eq_false_iff.2 hk, Table.contains, if_pos rfl]
        cases hknown : t.get? name with
        | none => simp [ih htail, Table.get?_insert]
        | some u => simp [ih htail, hknown]
      · rw [if_neg hn]
        split
        · exact ih htail
        · rw [ih htail, Table.get?_insert, beq_eq_false_iff_ne.2 hn]
          rfl

end Fields

section Normalization

variable {d es fs : Dict} {t u : Table String Value} {name : String} {v : Value}

theorem fieldValue_nested (h : name ∈ nestedFields) (es : Dict) :
    fieldValue name (.dict es) = .dict (normalizeFields es) := by
  rw [fieldValue, if_pos (List.contains_iff_mem.2 h), normalizeFields]

theorem fieldValue_untouched (h : name ∈ nestedFields → ∀ es, v ≠ .dict es) :
    fieldValue name v = v := by
  rw [fieldValue.eq_def]
  split
  · rw [if_neg]
    exact fun hname => h (List.contains_iff_mem.1 hname) _ rfl
  · rfl

theorem keys_normalizeFields (d : Dict) :
    Table.keys (normalizeFields d) = (firsts (d.map (·.1.fieldName))).map .str := by
  rw [normalizeFields_eq, keys_of, keys_fieldsOver]
  rfl

theorem field_normalizeFields (hd : Table.Distinct d) (hname : snake name = name) :
    (normalizeFields d).field name
      = ((d.field name).or (d.spelled name)).map (fieldValue name) := by
  rw [normalizeFields_eq, Dict.field, Value.get?_of, get?_fieldsOver hd hname, Table.get?_nil,
    Option.or_none, Option.map_or]

/-- Fields that stand under their own names with nothing left to change are added as they are. -/
theorem fieldsOver_of (htu : Table.Distinct (t ++ u))
    (hu : ∀ e ∈ u, snake e.1 = e.1 ∧ fieldValue e.1 e.2 = e.2) :
    fieldsOver t (.of u) = t ++ u := by
  induction u generalizing t with
  | nil => exact (List.append_nil t).symm
  | cons e u ih =>
    obtain ⟨hname, hvalue⟩ := hu e List.mem_cons_self
    have hown : Scalar.fieldName (.str e.1) = e.1 := hname
    change fieldsOver t ((.str e.1, e.2) :: Dict.of u) = _
    rw [fieldsOver, hown, isName_iff.2 rfl, Bool.not_true, Bool.and_false,
      if_neg Bool.false_ne_true, hvalue, Table.insert_of_fresh htu.fresh,
      ih (by simpa using htu) fun f hf => hu f (List.mem_cons_of_mem e hf)]
    simp

theorem normalizeFields_again
    (h : ∀ e ∈ d, ∀ name, fieldValue name (fieldValue name e.2) = fieldValue name e.2) :
    normalizeFields (normalizeFields d) = normalizeFields d := by
  rw [normalizeFields_eq d, normalizeFields_eq,
    fieldsOver_of (distinct_fieldsOver List.Pairwise.nil d), List.nil_append]
  intro f hf
  obtain ⟨e, he, rfl⟩ := (mem_fieldsOver hf).resolve_left List.not_mem_nil
  exact ⟨snake_snake _, h e he _⟩

/-- The recursion is into the values of a mapping. -/
theorem fieldValue_again (name : String) (v : Value) :
    fieldValue name (fieldValue name v) = fieldValue name v := by
  by_cases h : name ∈ nestedFields ∧ ∃ es, v = .dict es
  · obtain ⟨hname, es, rfl⟩ := h
    rw [fieldValue_nested hname, fieldValue_nested hname,
      normalizeFields_again fun e he name => fieldValue_again name e.2]
  · rw [fieldValue_untouched fun hname es hv => h ⟨hname, es, hv⟩,
      fieldValue_untouched fun hname es hv => h ⟨hname, es, hv⟩]
termination_by sizeOf v
decreasing_by
  subst v
  have hentry := List.sizeOf_lt_of_mem he
  have hvalue : sizeOf e = 1 + sizeOf e.1 + sizeOf e.2 := rfl
  rw [Value.dict.sizeOf_spec]
  omega

theorem normalizeFields_normalizeFields (d : Dict) :
    normalizeFields (normalizeFields d) = normalizeFields d :=
  normalizeFields_again fun e _ name => fieldValue_again name e.2

end Normalization

/-- Two mappings with the same entries, one in snake case with each key once, the other under any
spellings of the keys. Below the keys whose values are fields as well, keys may be respelled too. -/
inductive Dict.Respelled : Dict → Dict → Prop
  | nil : Respelled [] []
  | key {es es' : Dict} (s : String) (v : Value) (hnew : Table.Fresh es (.str (snake s)))
    (h : Respelled es es') : Respelled ((.str (snake s), v) :: es) ((.str s, v) :: es')
  | nested {es es' fs fs' : Dict} (s : String) (hs : snake s ∈ nestedFields)
    (hnew : Table.Fresh es (.str (snake s))) (hf : Respelled fs fs') (h : Respelled es es') :
    Respelled ((.str (snake s), .dict fs) :: es) ((.str s, .dict fs') :: es')

section Respelling

variable {known d d' : Dict}

theorem addFields_new {s : String} (hknown : Table.contains known (.str (snake s)) = false)
    (k : Scalar) (hk : k.fieldName = snake s) (v : Value) (es : Dict) :
    addFields known ((k, v) :: es)
      = addFields (known.set (snake s) (fieldValue (snake s) v)) es := by
  rw [addFields, ← Scalar.fieldName, hk, hknown, Bool.false_and, if_neg Bool.false_ne_true]

theorem not_contains_set {es : Dict} {name : String} {v : Value}
    (hknown : ∀ e ∈ (.str name, v) :: es, Table.contains known e.1 = false)
    (hnew : Table.Fresh es (.str name)) (w : Value) :
    ∀ e ∈ es, Table.contains (known.set name w) e.1 = false := fun e he => by
  rw [Dict.set, Table.contains_insert, BEq.comm, hnew e he, Bool.false_or]
  exact hknown e (List.mem_cons_of_mem _ he)

/-- Names that are not known are added in the same way under any spelling. -/
theorem addFields_respelled (h : Dict.Respelled d d')
    (hknown : ∀ e ∈ d, Table.contains known e.1 = false) :
    addFields known d' = addFields known d := by
  induction h generalizing known with
  | nil => rfl
  | key s v hnew h ih =>
    have hs := hknown _ List.mem_cons_self
    rw [addFields_new hs (.str s) rfl, addFields_new hs (.str (snake s)) (snake_snake s)]
    exact ih (not_contains_set hknown hnew _)
  | nested s hs hnew hf h ihf ih =>
    have hnested : addFields [] _ = addFields [] _ := ihf fun _ _ => rfl
    have hknown' := hknown _ List.mem_cons_self
    rw [addFields_new hknown' (.str s) rfl,
      addFields_new hknown' (.str (snake s)) (snake_snake s), fieldValue_nested hs,
      fieldValue_nested hs, normalizeFields, hnested]
    exact ih (not_contains_set hknown hnew _)

theorem normalizeFields_respelled (h : Dict.Respelled d d') :
    normalizeFields d' = normalizeFields d :=
  addFields_respelled h fun _ _ => rfl

end Respelling

/-- Two nodes that differ in the spelling of their types and of their fields. -/
structure Node.Respelled (node node' : Dict) : Prop where
  id : node'.field "id" = node.field "id"
  type : node'.field "type" = node.field "type" ∨ ∃ t : NodeType,
    node.field "type" = some (.str t.name) ∧ node'.field "type" = some (.str t.editorName)
  data : node'.field "data" = node.field "data" ∨ ∃ d d', Dict.Respelled d d'
    ∧ node.field "data" = some (.dict d) ∧ node'.field "data" = some (.dict d')

/-- Two graphs that differ in the spelling of some of their nodes. -/
structure Graph.Respelled (graph graph' : Dict) : Prop where
  nodes : ∃ vs vs', graph.field "nodes" = some (.list vs)
    ∧ graph'.field "nodes" = some (.list vs')
    ∧ List.Forall₂ (fun v v' => v' = v ∨ ∃ node node', Node.Respelled node node'
      ∧ v = .dict node ∧ v' = .dict node') vs vs'
  edges : graph'.field "edges" = graph.field "edges"

section Reading

variable {node node' graph graph' : Dict}

theorem NodeType.canonical_name (t : NodeType) : canonical t.name = t.name := by
  cases t <;> rfl

theorem NodeType.canonical_editorName (t : NodeType) : canonical t.editorName = t.name := by
  cases t <;> rfl

theorem Value.toDict_orElse (d : Dict) : ((Value.dict d).orElse (.dict [])).toDict = .ok d := by
  cases d <;> rfl

theorem Node.read_dict (node : Dict) :
    Node.read (.dict node) = do
      let id ← (Value.dict node).item "id"
      let data ← ((((node.field "data").getD .null).orElse (.dict [])).toDict).map normalizeFields
      return ⟨id.text, NodeType.canonical ((node.field "type").getD (.str "")).text, data⟩ := by
  simp only [Node.read, Value.get, ok_bind]
  cases (((node.field "data").getD .null).orElse (.dict [])).toDict <;> rfl

theorem Node.read_respelled (h : Node.Respelled node node') :
    Node.read (.dict node') = Node.read (.dict node) := by
  have htype : NodeType.canonical ((node'.field "type").getD (.str "")).text
      = NodeType.canonical ((node.field "type").getD (.str "")).text := by
    rcases h.type with heq | ⟨t, hname, heditor⟩
    · rw [heq]
    · rw [hname, heditor]
      exact t.canonical_editorName.trans t.canonical_name.symm
  have hdata : (((node'.field "data").getD .null).orElse (.dict [])).toDict.map normalizeFields
      = (((node.field "data").getD .null).orElse (.dict [])).toDict.map normalizeFields := by
    rcases h.data with heq | ⟨d, d', hd, hfield, hfield'⟩
    · rw [heq]
    · rw [hfield, hfield', Option.getD_some, Option.getD_some, Value.toDict_orElse,
        Value.toDict_orElse]
      exact congrArg Except.ok (normalizeFields_respelled hd)
  have hid : (Value.dict node').item "id" = (Value.dict node).item "id" := by
    rw [Value.item, Value.item, h.id]
  rw [Node.read_dict, Node.read_dict, hid, hdata, htype]

theorem Graph.read_dict (graph : Dict) :
    Graph.read (.dict graph) = do
      let nodes ← (((graph.field "nodes").getD .null).orElse (.list [])).elements
      let nodes ← nodes.mapM Node.read
      let edges ← (((graph.field "edges").getD .null).orElse (.list [])).elements
      let edges ← edges.mapM Edge.read
      return ⟨nodes, edges⟩ := by
  simp only [Graph.read, Value.get, ok_bind]

theorem mapM_respelled {vs vs' : List Value}
    (h : List.Forall₂ (fun v v' => v' = v ∨ ∃ node node', Node.Respelled node node'
      ∧ v = .dict node ∧ v' = .dict node') vs vs') :
    vs'.mapM Node.read = vs.mapM Node.read := by
  induction h with
  | nil => rfl
  | cons hv _ ih =>
    rw [List.mapM_cons, List.mapM_cons, ih]
    rcases hv with rfl | ⟨node, node', hnode, rfl, rfl⟩
    · rfl
    · rw [Node.read_respelled hnode]

theorem Graph.read_respelled (h : Graph.Respelled graph graph') :
    Graph.read (.dict graph') = Graph.read (.dict graph) := by
  obtain ⟨vs, vs', hnodes, hnodes', hvs⟩ := h.nodes
  rw [Graph.read_dict, Graph.read_dict, hnodes, hnodes', h.edges, Option.getD_some,
    Option.getD_some, Value.elements_list, Value.elements_list, ok_bind, ok_bind,
    mapM_respelled hvs]

/-- What is read of a graph is free of spelling. The fields of a mapping are the names of its keys
in the order of their first spellings. A key that is a name gives the value, and otherwise the first
spelling of the name does; only sub-documents of fields are changed on the way, in the same manner.
-/
theorem Graph.spelling_free :
    (∀ d : Dict, Table.Distinct d →
      Table.keys (normalizeFields d) = (firsts (d.map fun e => snake e.1.text)).map .str
      ∧ ∀ name, snake name = name → (normalizeFields d).field name
          = ((d.field name).or (d.spelled name)).map (fieldValue name))
    ∧ (∀ name v, (∀ es, v = .dict es → name ∈ ["deployment_strategy", "rollback_config"] →
        fieldValue name v = .dict (normalizeFields es))
      ∧ ((name ∈ ["deployment_strategy", "rollback_config"] → ∀ es, v ≠ .dict es) →
        fieldValue name v = v))
    ∧ (∀ d, normalizeFields (normalizeFields d) = normalizeFields d)
    ∧ ∀ graph graph', Graph.Respelled graph graph' →
      Graph.read (.dict graph') = Graph.read (.dict graph) := by
  refine ⟨fun d hd => ⟨keys_normalizeFields d, fun name => field_normalizeFields hd⟩,
    fun name v => ⟨?_, fieldValue_untouched⟩, normalizeFields_normalizeFields,
    fun graph graph' => Graph.read_respelled⟩
  rintro es rfl hname
  exact fieldValue_nested hname es

/-- A graph of one node. -/
def Graph.single (node : Dict) : Dict :=
  Dict.of [("nodes", .list [.dict node]), ("edges", .list [])]

theorem Graph.spelling_free_deploy :
    Dict.field (normalizeFields (Dict.of [("nodeVersion", .str "20"), ("node_version", .str "22"),
      ("NodeVersion", .str "18")])) "node_version" = some (.str "22")
    ∧ fieldValue "rollback_config" (.dict (Dict.of [("onAlarmThreshold", .bool true)]))
      = .dict (normalizeFields (Dict.of [("onAlarmThreshold", .bool true)]))
    ∧ fieldValue "environment_variables" (.dict (Dict.of [("apiUrl", .str "x")]))
      = .dict (Dict.of [("apiUrl", .str "x")])
    ∧ Graph.read (.dict (Graph.single (Dict.of [("id", .str "d"), ("type", .str "deployNode"),
        ("data", .dict (Dict.of [("nodeVersion", .str "22"),
          ("rollbackConfig", .dict (Dict.of [("onAlarmThreshold", .bool true)]))]))])))
      = Graph.read (.dict (Graph.single (Dict.of [("id", .str "d"), ("type", .str "deploy"),
        ("data", .dict (Dict.of [("node_version", .str "22"),
          ("rollback_config", .dict (Dict.of [("on_alarm_threshold", .bool true)]))]))]))) := by
  obtain ⟨hfields, hvalues, -, hgraphs⟩ := Graph.spelling_free
  have hdata : Dict.Respelled
      (Dict.of [("node_version", .str "22"),
        ("rollback_config", .dict (Dict.of [("on_alarm_threshold", .bool true)]))])
      (Dict.of [("nodeVersion", .str "22"),
        ("rollbackConfig", .dict (Dict.of [("onAlarmThreshold", .bool true)]))]) :=
    .key "nodeVersion" _ (by decide) (.nested "rollbackConfig" (by decide) (by decide)
      (.key "onAlarmThreshold" _ (by decide) .nil) .nil)
  refine ⟨?_, (hvalues _ _).1 _ rfl (by decide), (hvalues _ _).2 fun h => absurd h (by decide),
    hgraphs _ _ ⟨⟨_, _, rfl, rfl, .cons (.inr ⟨_, _, ?_, rfl, rfl⟩) .nil⟩, rfl⟩⟩
  · exact ((hfields _ (by decide)).2 "node_version" (by decide)).trans (by decide)
  · exact ⟨rfl, .inr ⟨.deploy, rfl, rfl⟩, .inr ⟨_, _, hdata, rfl, rfl⟩⟩

end Reading

end BuildPipeline
