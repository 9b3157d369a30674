import BuildPipeline.Graph.Prune
import BuildPipeline.Proofs.Cycles
import BuildPipeline.Proofs.DepthFirst
import BuildPipeline.Validation

/-!
Validation, pruning and planning each go over a graph on their own. They agree on it: what is pruned is
what validation finds fault with, cycles and unknown types apart, and what is left can be planned
unless an identifier is blank or, in topological order, there is a cycle.
-/

namespace BuildPipeline

/-- The end of an edge at a place. -/
def Edge.endpoint (e : Edge) : EdgeEnd → String
  | .source => e.source
  | .target => e.target

theorem EdgeEnd.exists_iff {p : EdgeEnd → Prop} : (∃ place, p place) ↔ p .source ∨ p .target := by
  constructor
  · rintro ⟨_ | _, h⟩
    exacts [.inl h, .inr h]
  · rintro (h | h)
    exacts [⟨_, h⟩, ⟨_, h⟩]

/-- The identifier that an issue says is declared again. -/
def Issue.duplicate? : Issue → Option String
  | .duplicateNode id => some id
  | _ => none

theorem Issue.duplicate?_isSome (i : Issue) :
    i.duplicate?.isSome = (i.code == "duplicate_node_id") := by
  cases i <;> simp [duplicate?, code]

namespace Graph

variable {g : Graph} {seen seen' : List String} {ns : List Node} {n : Node} {e : Edge} {i : Issue}

section FirstNodes

theorem firstNodesFrom_sublist (seen : List String) (ns : List Node) :
    (firstNodesFrom seen ns).Sublist ns := by
  induction ns generalizing seen with
  | nil => exact .slnil
  | cons n ns ih =>
    rw [firstNodesFrom]
    split
    · exact (ih seen).cons n
    · exact (ih _).cons_cons n

theorem ids_firstNodesFrom (h : ∀ id, id ∈ seen ↔ id ∈ seen') (ns : List Node) :
    (ns.map (·.id)).foldl (fun seen id => if seen.contains id then seen else seen ++ [id]) seen'
      = seen' ++ (firstNodesFrom seen ns).map (·.id) := by
  induction ns generalizing seen seen' with
  | nil => simp [firstNodesFrom]
  | cons n ns ih =>
    rw [List.map_cons, List.foldl_cons, firstNodesFrom]
    by_cases hn : n.id ∈ seen
    · rw [if_pos (List.contains_iff_mem.2 hn), if_pos (List.contains_iff_mem.2 ((h n.id).1 hn))]
      exact ih h
    · have hseen (id : String) : id ∈ n.id :: seen ↔ id ∈ seen' ++ [n.id] := by simp [h, or_comm]
      rw [if_neg (mt List.contains_iff_mem.1 hn),
        if_neg (mt List.contains_iff_mem.1 (mt (h n.id).2 hn)), ih hseen]
      simp

theorem ids_prune (g : Graph) : g.prune.ids = firsts g.ids := by
  have hseen (id : String) : id ∈ ([] : List String) ↔ id ∈ ([] : List String) := Iff.rfl
  exact (ids_firstNodesFrom hseen g.nodes).symm

theorem not_mem_seen (hn : n ∈ firstNodesFrom seen ns) : n.id ∉ seen := by
  induction ns generalizing seen with
  | nil => cases hn
  | cons m ns ih =>
    rw [firstNodesFrom] at hn
    split at hn
    case isTrue => exact ih hn
    case isFalse hm =>
      rcases List.mem_cons.1 hn with rfl | hn
      · exact mt List.contains_iff_mem.2 hm
      · exact fun hseen => ih hn (List.mem_cons_of_mem _ hseen)

theorem nodup_firstNodesFrom (seen : List String) (ns : List Node) :
    ((firstNodesFrom seen ns).map (·.id)).Nodup := by
  induction ns generalizing seen with
  | nil => exact List.nodup_nil
  | cons n ns ih =>
    rw [firstNodesFrom]
    split
    · exact ih seen
    · refine List.nodup_cons.2 ⟨fun hmem => ?_, ih _⟩
      obtain ⟨m, hm, hid⟩ := List.mem_map.1 hmem
      exact not_mem_seen hm (hid ▸ List.mem_cons_self)

/-- A node is found if it is the first one of its identifier. -/
theorem find?_of_mem_firstNodesFrom (hn : n ∈ firstNodesFrom seen ns) :
    ns.find? (·.id == n.id) = some n := by
  induction ns generalizing seen with
  | nil => cases hn
  | cons m ns ih =>
    rw [firstNodesFrom] at hn
    have hskip (hne : m.id ≠ n.id) (hn : ns.find? (·.id == n.id) = some n) :
        (m :: ns).find? (·.id == n.id) = some n := by
      rw [List.find?_cons_of_neg (by simpa using hne), hn]
    split at hn
    case isTrue hm =>
      refine hskip (fun hid => not_mem_seen hn ?_) (ih hn)
      exact hid ▸ List.contains_iff_mem.1 hm
    case isFalse =>
      rcases List.mem_cons.1 hn with rfl | hn
      · exact List.find?_cons_of_pos (by simp)
      · exact hskip (fun hid => not_mem_seen hn (hid ▸ List.mem_cons_self)) (ih hn)

theorem nodes_prune (g : Graph) : g.prune.nodes = (firsts g.ids).filterMap g.node? := by
  rw [← ids_prune, ids, List.filterMap_map]
  have hself : ∀ n ∈ g.prune.nodes, (g.node? ∘ (·.id)) n = some n := fun n hn =>
    find?_of_mem_firstNodesFrom hn
  rw [List.filterMap_congr hself, List.filterMap_some]

theorem nodup_ids_prune (g : Graph) : g.prune.ids.Nodup := nodup_firstNodesFrom [] g.nodes

theorem mem_ids_prune {id : String} : id ∈ g.prune.ids ↔ id ∈ g.ids := by
  rw [ids_prune, mem_firsts]

theorem not_mem_cons_of_nodup (hn : n.id ∉ ns.map (·.id)) (hseen : ∀ m ∈ n :: ns, m.id ∉ seen) :
    ∀ m ∈ ns, m.id ∉ n.id :: seen := by
  intro m hm
  rw [List.mem_cons, not_or]
  exact ⟨fun hid => hn (List.mem_map.2 ⟨m, hm, hid⟩), hseen m (List.mem_cons_of_mem _ hm)⟩

theorem firstNodesFrom_of_nodup (hids : (ns.map (·.id)).Nodup) (hseen : ∀ n ∈ ns, n.id ∉ seen) :
    firstNodesFrom seen ns = ns := by
  induction ns generalizing seen with
  | nil => rfl
  | cons n ns ih =>
    obtain ⟨hn, hids⟩ := List.nodup_cons.1 hids
    rw [firstNodesFrom, if_neg (mt List.contains_iff_mem.1 (hseen n List.mem_cons_self)),
      ih hids (not_mem_cons_of_nodup hn hseen)]

end FirstNodes

section Issues

/-- The identifiers declared are those of the nodes kept and those reported as duplicates. -/
theorem duplicates_perm (h : ∀ id, id ∈ seen ↔ id ∈ seen') (ns : List Node) :
    ((nodeIssuesFrom seen ns).filterMap Issue.duplicate?
      ++ (firstNodesFrom seen' ns).map (·.id)).Perm (ns.map (·.id)) := by
  induction ns generalizing seen seen' with
  | nil => exact .nil
  | cons n ns ih =>
    have htype : (if n.type?.isNone then [Issue.unknownNodeType n.id n.type] else []).filterMap
        Issue.duplicate? = [] := by split <;> rfl
    rw [nodeIssuesFrom, firstNodesFrom, List.filterMap_append, List.filterMap_append, htype,
      List.append_nil, List.map_cons]
    by_cases hn : n.id ∈ seen
    · -- the validator goes on with one more identifier, which it has seen before
      have hsame : ∀ id, id ∈ n.id :: seen ↔ id ∈ seen' := by
        intro id
        rw [← h, List.mem_cons, or_iff_right_of_imp]
        rintro rfl
        exact hn
      rw [if_pos (List.contains_iff_mem.2 hn), if_pos (List.contains_iff_mem.2 ((h n.id).1 hn))]
      exact (ih hsame).cons n.id
    · rw [if_neg (mt List.contains_iff_mem.1 hn),
        if_neg (mt List.contains_iff_mem.1 (mt (h n.id).2 hn))]
      exact List.perm_middle.trans ((ih (by simp [h])).cons n.id)

theorem nodeIssuesFrom_of_nodup (hids : (ns.map (·.id)).Nodup) (hseen : ∀ n ∈ ns, n.id ∉ seen) :
    nodeIssuesFrom seen ns = (ns.filter (·.type?.isNone)).map fun n =>
      .unknownNodeType n.id n.type := by
  induction ns generalizing seen with
  | nil => rfl
  | cons n ns ih =>
    obtain ⟨hn, hids⟩ := List.nodup_cons.1 hids
    rw [nodeIssuesFrom, if_neg (mt List.contains_iff_mem.1 (hseen n List.mem_cons_self)),
      ih hids (not_mem_cons_of_nodup hn hseen), List.filter_cons]
    split <;> rfl

theorem mem_nodeIssuesFrom (h : i ∈ nodeIssuesFrom seen ns) :
    (∃ id, i = .duplicateNode id) ∨ ∃ id type, i = .unknownNodeType id type := by
  induction ns generalizing seen with
  | nil => cases h
  | cons n ns ih =>
    rw [nodeIssuesFrom, List.append_assoc, List.mem_append, List.mem_append] at h
    rcases h with h | h | h
    · split at h
      · exact .inl ⟨n.id, List.mem_singleton.1 h⟩
      · cases h
    · split at h
      · exact .inr ⟨n.id, n.type, List.mem_singleton.1 h⟩
      · cases h
    · exact ih h

theorem mem_edgeIssues : i ∈ g.edgeIssues e
    ↔ ∃ place, i = .unknownEndpoint e.id place (e.endpoint place)
      ∧ g.declares (e.endpoint place) = false := by
  rw [EdgeEnd.exists_iff, edgeIssues, List.mem_append]
  simp only [Edge.endpoint]
  cases g.declares e.source <;> cases g.declares e.target <;> simp

theorem edgeIssues_eq_nil :
    g.edgeIssues e = [] ↔ g.declares e.source = true ∧ g.declares e.target = true := by
  rw [edgeIssues, List.append_eq_nil_iff]
  cases g.declares e.source <;> cases g.declares e.target <;> simp

theorem unknownEndpoint_mem_issues {edge ref : String} {place : EdgeEnd} :
    .unknownEndpoint edge place ref ∈ g.issues
      ↔ ∃ e ∈ g.edges, e.id = edge ∧ e.endpoint place = ref ∧ g.declares ref = false := by
  rw [issues, List.mem_append, List.mem_flatMap]
  constructor
  · rintro (hnode | ⟨e, he, hissue⟩)
    · rcases mem_nodeIssuesFrom hnode with ⟨_, h⟩ | ⟨_, _, h⟩ <;> cases h
    · obtain ⟨place', h, hdeclared⟩ := mem_edgeIssues.1 hissue
      cases h
      exact ⟨e, he, rfl, rfl, hdeclared⟩
  · rintro ⟨e, he, rfl, rfl, hdeclared⟩
    exact .inr ⟨e, he, mem_edgeIssues.2 ⟨place, rfl, hdeclared⟩⟩

end Issues

section Edges

/-- Whether an end of an edge is reported. -/
def reports (g : Graph) (e : Edge) : Bool :=
  [EdgeEnd.source, .target].any fun place =>
    g.issues.contains (.unknownEndpoint e.id place (e.endpoint place))

theorem reports_iff (he : e ∈ g.edges) :
    g.reports e ↔ ∃ place, g.declares (e.endpoint place) = false := by
  have hplace (place : EdgeEnd) : g.issues.contains (.unknownEndpoint e.id place (e.endpoint place))
      ↔ g.declares (e.endpoint place) = false := by
    rw [List.contains_iff_mem, unknownEndpoint_mem_issues]
    exact ⟨fun ⟨_, _, _, _, h⟩ => h, fun h => ⟨e, he, rfl, rfl, h⟩⟩
  rw [reports, List.any_eq_true]
  simp only [hplace]
  refine ⟨fun ⟨place, _, h⟩ => ⟨place, h⟩, fun ⟨place, h⟩ => ⟨place, ?_, h⟩⟩
  cases place <;> decide

theorem edges_prune (g : Graph) : g.prune.edges = g.edges.filter (!g.reports ·) := by
  refine List.filter_congr fun e he => ?_
  have hreports := reports_iff he
  rw [EdgeEnd.exists_iff] at hreports
  simp only [Edge.endpoint] at hreports
  rw [Bool.eq_iff_iff, Bool.and_eq_true, Bool.not_eq_true', ← Bool.not_eq_true, hreports, not_or,
    Bool.not_eq_false, Bool.not_eq_false]

theorem closed_prune (g : Graph) : g.prune.Closed := by
  intro e he
  rw [mem_ids_prune, mem_ids_prune]
  simpa [declares] using (List.mem_filter.1 he).2

end Edges

section Pruning

theorem prune_eq_self : g.prune = g
    ↔ g.prune.nodes.length = g.nodes.length ∧ g.prune.edges.length = g.edges.length := by
  have hnodes : g.prune.nodes.Sublist g.nodes := firstNodesFrom_sublist [] g.nodes
  have hedges : g.prune.edges.Sublist g.edges := List.filter_sublist
  rw [List.Sublist.length_eq hnodes, List.Sublist.length_eq hedges]
  constructor
  · intro h
    exact ⟨congrArg nodes h, congrArg edges h⟩
  · rintro ⟨hnodes, hedges⟩
    exact congrArg₂ Graph.mk hnodes hedges

theorem isPruned_iff : g.isPruned ↔ g.prune = g := by
  rw [prune_eq_self, isPruned, Bool.and_eq_true, beq_iff_eq, beq_iff_eq]

/-- A graph with distinct identifiers and edges between declared nodes is left as it is. -/
theorem prune_of_closed (hids : g.ids.Nodup) (h : g.Closed) : g.prune = g := by
  have hnodes : firstNodes g.nodes = g.nodes := firstNodesFrom_of_nodup hids (by simp)
  rw [prune, hnodes, List.filter_eq_self.2 fun e he => by simpa [declares] using h e he]

theorem prune_prune (g : Graph) : g.prune.prune = g.prune :=
  prune_of_closed g.nodup_ids_prune g.closed_prune

theorem duplicates_append_ids (g : Graph) :
    (g.issues.filterMap Issue.duplicate? ++ g.prune.ids).Perm g.ids := by
  have hedges : (g.edges.flatMap g.edgeIssues).filterMap Issue.duplicate? = [] := by
    refine List.filterMap_eq_nil_iff.2 fun i hi => ?_
    obtain ⟨e, -, hi⟩ := List.mem_flatMap.1 hi
    obtain ⟨place, rfl, -⟩ := mem_edgeIssues.1 hi
    rfl
  rw [issues, List.filterMap_append, hedges, List.append_nil]
  exact duplicates_perm (fun _ => .rfl) g.nodes

theorem length_prune (g : Graph) :
    g.issues.countP (·.code == "duplicate_node_id") + g.prune.nodes.length = g.nodes.length := by
  have hlength := g.duplicates_append_ids.length_eq
  rw [List.length_append, List.length_filterMap_eq_countP, ids, ids, List.length_map,
    List.length_map] at hlength
  simpa only [Issue.duplicate?_isSome] using hlength

theorem issues_of_closed (hids : g.ids.Nodup) (h : g.Closed) :
    g.issues = (g.nodes.filter (·.type?.isNone)).map fun n => .unknownNodeType n.id n.type := by
  have hedges : g.edges.flatMap g.edgeIssues = [] := by
    refine List.flatMap_eq_nil_iff.2 fun e he => edgeIssues_eq_nil.2 ?_
    simpa [declares] using h e he
  rw [issues, nodeIssuesFrom_of_nodup hids (by simp), hedges, List.append_nil]

theorem reports_of_code (hi : i ∈ g.issues) (hcode : i.code = "unknown_edge_endpoint") :
    ∃ e ∈ g.edges, g.reports e := by
  obtain ⟨edge, place, ref, rfl⟩ : ∃ edge place ref, i = .unknownEndpoint edge place ref := by
    cases i <;> simp_all [Issue.code]
  obtain ⟨e, he, -, rfl, hdeclared⟩ := unknownEndpoint_mem_issues.1 hi
  exact ⟨e, he, (reports_iff he).2 ⟨place, hdeclared⟩⟩

theorem code_of_reports (h : g.reports e) : ∃ i ∈ g.issues, i.code = "unknown_edge_endpoint" := by
  obtain ⟨place, -, hplace⟩ := List.any_eq_true.1 h
  exact ⟨_, List.contains_iff_mem.1 hplace, rfl⟩

/-- Nothing is pruned unless validation finds a duplicate or an end that is not declared. -/
theorem prune_eq_self_iff : g.prune = g
    ↔ ∀ i ∈ g.issues, i.code ≠ "duplicate_node_id" ∧ i.code ≠ "unknown_edge_endpoint" := by
  have hnodes : g.prune.nodes.length = g.nodes.length
      ↔ ∀ i ∈ g.issues, i.code ≠ "duplicate_node_id" := by
    rw [← g.length_prune, Nat.right_eq_add, List.countP_eq_zero]
    simp
  have hedges : g.prune.edges.length = g.edges.length
      ↔ ∀ i ∈ g.issues, i.code ≠ "unknown_edge_endpoint" := by
    rw [edges_prune, List.length_filter_eq_length_iff]
    constructor
    · intro h i hi hcode
      obtain ⟨e, he, hreports⟩ := reports_of_code hi hcode
      simpa [hreports] using h e he
    · intro h e he
      rw [Bool.not_eq_true', ← Bool.not_eq_true]
      intro hreports
      obtain ⟨i, hi, hcode⟩ := code_of_reports hreports
      exact h i hi hcode
  rw [prune_eq_self, hnodes, hedges]
  exact forall₂_and.symm

end Pruning

section Planning

/-- Some identifier is blank. -/
def HasBlank (g : Graph) : Prop := ∃ id ∈ g.ids, Text.isBlankText id

theorem checkIdsFrom_of_blank (hids : (ns.map (·.id)).Nodup) (hseen : ∀ n ∈ ns, n.id ∉ seen)
    (hblank : ∃ n ∈ ns, Text.isBlankText n.id) : checkIdsFrom seen ns = .error .blankId := by
  induction ns generalizing seen with
  | nil => simp at hblank
  | cons n ns ih =>
    obtain ⟨hn, hids⟩ := List.nodup_cons.1 hids
    rw [checkIdsFrom]
    split
    case isTrue => rfl
    case isFalse hvisible =>
      rw [if_neg (mt List.contains_iff_mem.1 (hseen n List.mem_cons_self))]
      refine ih hids (not_mem_cons_of_nodup hn hseen) ?_
      obtain ⟨m, hm, hblank⟩ := hblank
      rcases List.mem_cons.1 hm with rfl | hm
      · exact absurd hblank hvisible
      · exact ⟨m, hm, hblank⟩

theorem plan_of_blank (hids : g.ids.Nodup) (hblank : g.HasBlank) (t : Traversal) :
    g.plan t = .error .blankId := by
  obtain ⟨id, hid, hblank⟩ := hblank
  obtain ⟨n, hn, rfl⟩ := List.mem_map.1 hid
  rw [plan.eq_def, checkIds, checkIdsFrom_of_blank hids (by simp) ⟨n, hn, hblank⟩]
  rfl

theorem distinct_of_visible (hids : g.ids.Nodup) (hvisible : ¬g.HasBlank) : g.Distinct := by
  refine ⟨hids, fun n hn => ?_⟩
  rw [← Bool.not_eq_true]
  exact fun hblank => hvisible ⟨n.id, List.mem_map_of_mem hn, hblank⟩

theorem hasBlank_prune : g.prune.HasBlank ↔ g.HasBlank := by simp only [HasBlank, mem_ids_prune]

/-- A pruned graph has a pre-order plan unless an identifier is blank. -/
theorem plan_preorder_prune {e : PlanError} :
    g.prune.plan .preorder = .error e ↔ g.HasBlank ∧ e = .blankId := by
  by_cases hblank : g.HasBlank
  · rw [plan_of_blank g.nodup_ids_prune (hasBlank_prune.2 hblank), Except.error.injEq, eq_comm,
      and_iff_right hblank]
  · rw [plan_preorder (distinct_of_visible g.nodup_ids_prune (mt hasBlank_prune.1 hblank))]
    exact iff_of_false nofun fun h => hblank h.1

/-- A pruned graph has a topological plan unless an identifier is blank or a cycle is left. -/
theorem plan_topological_prune {e : PlanError} : g.prune.plan .topological = .error e
    ↔ g.HasBlank ∧ e = .blankId ∨ ¬g.HasBlank ∧ ¬g.prune.Acyclic
      ∧ e = .cycle ((g.prune.nodesAt g.prune.stuckPlaces).map (·.id)) := by
  by_cases hblank : g.HasBlank
  · rw [plan_of_blank g.nodup_ids_prune (hasBlank_prune.2 hblank), Except.error.injEq, eq_comm]
    tauto
  · have hg := distinct_of_visible g.nodup_ids_prune (mt hasBlank_prune.1 hblank)
    rw [plan_topological_of_closed hg g.closed_prune]
    have hacyclic := stuckPlaces_isEmpty_iff hg g.closed_prune
    split
    case isTrue hstuck =>
      refine iff_of_false nofun ?_
      rintro (h | h)
      · exact hblank h.1
      · exact h.2.1 (hacyclic.1 hstuck)
    case isFalse hstuck =>
      rw [Except.error.injEq, eq_comm]
      have hcyclic := mt hacyclic.2 hstuck
      tauto

theorem not_acyclic : ¬g.Acyclic ↔ ∃ id, Relation.TransGen g.Step id id := by
  simp [Acyclic]

end Planning

/-- Pruning leaves a graph alone exactly if validation reports no duplicate and no end of an edge that
is not declared. It keeps the first node of each identifier, in order of declaration, and the edges
with no end reported, and every node dropped is a duplicate reported. What it leaves is pruned, has
issues of unknown types alone, and can be planned unless an identifier is blank or, in topological
order, a cycle is left. -/
theorem prune_agrees (g : Graph) :
    (g.isPruned ↔ g.prune = g)
    ∧ (g.prune = g
      ↔ ∀ i ∈ g.issues, i.code ≠ "duplicate_node_id" ∧ i.code ≠ "unknown_edge_endpoint")
    ∧ g.prune.nodes.Sublist g.nodes ∧ g.prune.nodes = (firsts g.ids).filterMap g.node?
    ∧ g.issues.countP (·.code == "duplicate_node_id") + g.prune.nodes.length = g.nodes.length
    ∧ (g.issues.filterMap Issue.duplicate? ++ g.prune.ids).Perm g.ids
    ∧ g.prune.edges = g.edges.filter (!g.reports ·)
    ∧ g.prune.prune = g.prune ∧ (∀ i ∈ g.prune.issues, i.code = "unknown_node_type")
    ∧ ((∃ e, g.prune.plan .preorder = .error e) ↔ g.HasBlank)
    ∧ (∀ e, g.prune.plan .preorder = .error e → e.kind = "ValueError" ∧ e = .blankId)
    ∧ ((∃ e, g.prune.plan .topological = .error e)
      ↔ g.HasBlank ∨ ∃ id, Relation.TransGen g.prune.Step id id)
    ∧ ∀ e, g.prune.plan .topological = .error e →
      e.kind = "ValueError" ∧ e = .blankId ∧ g.HasBlank
        ∨ e.kind = "CycleDetectedError" ∧ (∃ ids, e = .cycle ids) ∧ ¬g.HasBlank := by
  refine ⟨isPruned_iff, prune_eq_self_iff, firstNodesFrom_sublist [] g.nodes, nodes_prune g,
    length_prune g, duplicates_append_ids g, edges_prune g, prune_prune g, fun i hi => ?_, ?_,
    fun e he => ?_, ?_, fun e he => ?_⟩
  · rw [issues_of_closed g.nodup_ids_prune g.closed_prune] at hi
    obtain ⟨n, -, rfl⟩ := List.mem_map.1 hi
    rfl
  · simp only [plan_preorder_prune, exists_and_left, exists_eq, and_true]
  · obtain ⟨-, rfl⟩ := plan_preorder_prune.1 he
    exact ⟨rfl, rfl⟩
  · rw [← not_acyclic]
    simp only [plan_topological_prune, exists_or, exists_and_left, exists_eq, and_true]
    tauto
  · rcases plan_topological_prune.1 he with ⟨hblank, rfl⟩ | ⟨hvisible, -, rfl⟩
    · exact .inl ⟨rfl, rfl, hblank⟩
    · exact .inr ⟨rfl, ⟨_, rfl⟩, hvisible⟩

/-- A node declared three times and edges from and to nowhere, around a cycle of two. -/
def frayed : Graph where
  nodes := [⟨"b", "build_vite", []⟩, ⟨"a", "start", []⟩, ⟨"b", "mystery", []⟩, ⟨"c", "gate", []⟩,
    ⟨"b", "build_vite", []⟩]
  edges := [⟨"1", "a", "b"⟩, ⟨"2", "ghost", "b"⟩, ⟨"3", "b", "c"⟩, ⟨"4", "c", "b"⟩,
    ⟨"4", "c", "nowhere"⟩]

theorem prune_agrees_frayed :
    frayed.issues.countP (·.code == "duplicate_node_id") = 2 ∧ frayed.prune.nodes.length = 3
    ∧ frayed.prune ≠ frayed ∧ (∃ e, frayed.prune.plan .topological = .error e)
    ∧ ¬∃ e, frayed.prune.plan .preorder = .error e := by
  obtain ⟨-, hself, -, -, hlength, -, -, -, -, hpreorder, -, htopological, -⟩ := prune_agrees frayed
  have hcount : frayed.issues.countP (·.code == "duplicate_node_id") = 2 := by decide
  have hvisible : ¬frayed.HasBlank := by unfold HasBlank; decide
  have hcycle : Relation.TransGen frayed.prune.Step "b" "b" :=
    .tail (.single ⟨⟨"3", "b", "c"⟩, by decide, rfl, rfl⟩) ⟨⟨"4", "c", "b"⟩, by decide, rfl, rfl⟩
  refine ⟨hcount, ?_, fun h => ?_, htopological.2 (.inr ⟨"b", hcycle⟩), mt hpreorder.1 hvisible⟩
  · rw [hcount] at hlength
    have : frayed.nodes.length = 5 := rfl
    omega
  · exact (hself.1 h (.duplicateNode "b") (by decide)).1 rfl

end Graph

end BuildPipeline
