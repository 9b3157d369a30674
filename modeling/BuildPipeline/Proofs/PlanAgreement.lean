import BuildPipeline.Proofs.PlanLaws
import BuildPipeline.Proofs.Reachability
import Mathlib.Data.List.Chain

/-!
Both traversals side by side. In a graph without cycles each of them plans every node once. Where no
node has two predecessors, the depth-first plan leads along the edges as the topological one does, and
in a chain that leaves one order for both.
-/

namespace BuildPipeline.Graph

variable {g : Graph} {a b id : String} {ids : List String} {order order' : List Node}

section Coverage

/-- A node without a way to it from an entry has a predecessor without one. -/
theorem exists_unreachable_behind (h : g.Closed) (hid : id ∈ g.ids) (hout : ¬g.Reachable id) :
    ∃ a ∈ g.ids, ¬g.Reachable a ∧ g.Step a id := by
  have hentry : ¬g.Entry id := fun hentry => hout ⟨id, hentry, .refl⟩
  obtain ⟨e, he, rfl⟩ : ∃ e ∈ g.edges, e.target = id := by
    by_contra hnone
    push Not at hnone
    exact hentry ⟨hid, hnone⟩
  have hstep : g.Step e.source e.target := ⟨e, he, rfl, rfl⟩
  have hsource := (h e he).1
  refine ⟨e.source, hsource, ?_, hstep⟩
  rintro ⟨entry, hentry, hreach⟩
  exact hout ⟨entry, hentry, hreach.tail ⟨hsource, hid, hstep⟩⟩

theorem reachable_of_acyclic (h : g.Closed) (hc : g.Acyclic) (hid : id ∈ g.ids) :
    g.Reachable id := by
  classical
  by_contra hout
  let unreachable := g.ids.filter (¬g.Reachable ·)
  have hbehind : ∀ b ∈ unreachable, ∃ a ∈ unreachable, g.Step a b := by
    intro b hb
    obtain ⟨hb, hbout⟩ := List.mem_filter.1 hb
    obtain ⟨a, ha, haout, hstep⟩ := exists_unreachable_behind h hb (of_decide_eq_true hbout)
    exact ⟨a, List.mem_filter.2 ⟨ha, decide_eq_true haout⟩, hstep⟩
  obtain ⟨c, hcycle, -⟩ :=
    exists_cycle_behind hbehind (List.mem_filter.2 ⟨hid, decide_eq_true hout⟩)
  exact hc c hcycle

theorem preorder_perm (hg : g.Distinct) (h : g.Closed) (hc : g.Acyclic) :
    g.preorder.Perm g.nodes := by
  have hnodup : g.preorder.Nodup := List.Nodup.of_map _ g.preorder_ids_nodup
  refine (List.perm_ext_iff_of_nodup hnodup hg.nodes_nodup).2 fun n => ?_
  refine ⟨mem_nodes_of_mem_preorder, fun hn => (mem_preorder_iff hg hn).2 ?_⟩
  exact mem_preorderIds.2 (reachable_of_acyclic h hc (List.mem_map_of_mem hn))

end Coverage

section Edges

theorem idxOf_lt_idxOf {before after : List String} (ha : a ∈ before) (hb : b ∉ before) :
    (before ++ after).idxOf a < (before ++ after).idxOf b := by
  rw [List.idxOf_append, if_pos ha, List.idxOf_append, if_neg hb]
  exact (List.idxOf_lt_length_of_mem ha).trans_le (Nat.le_add_left _ _)

/-- A search comes to a node from its predecessor, if it has no other one. -/
theorem preorder_along_edge (h : g.Closed) (hc : g.Acyclic) (hu : Relator.LeftUnique g.Step)
    {e : Edge} (he : e ∈ g.edges) :
    (g.preorder.map (·.id)).idxOf e.source < (g.preorder.map (·.id)).idxOf e.target := by
  rw [map_id_preorder]
  have htarget := mem_preorderIds.2 (reachable_of_acyclic h hc (h e he).2)
  obtain ⟨before, after, hsplit⟩ := List.append_of_mem htarget
  have hfresh : e.target ∉ before := fun hmem =>
    (List.nodup_append.1 (hsplit ▸ g.preorderIds_nodup)).2.2 _ hmem _ List.mem_cons_self rfl
  rcases g.explores_preorderIds.led.offered hsplit with hentry | ⟨p, hp, hlink⟩
  · exact absurd rfl (hentry.2 e he)
  · obtain rfl : p = e.source := hu hlink.2.2 ⟨e, he, rfl, rfl⟩
    rw [hsplit]
    exact idxOf_lt_idxOf hp hfresh

end Edges

section Chains

/-- Identifiers of all nodes, each with one edge to the next one, or more, and no other edges. -/
structure IsChain (g : Graph) (ids : List String) : Prop where
  perm : ids.Perm g.ids
  step : ∀ a b, g.Step a b ↔ [a, b] <:+: ids

theorem idxOf_of_infix (hids : ids.Nodup) (h : [a, b] <:+: ids) :
    ids.idxOf b = ids.idxOf a + 1 := by
  obtain ⟨before, after, rfl⟩ := h
  have ha := hids.idxOf_getElem before.length (by simp)
  have hb := hids.idxOf_getElem (before.length + 1) (by simp)
  simp only [List.append_assoc, List.getElem_append_right, Nat.le_refl, Nat.le_add_right,
    Nat.sub_self, Nat.add_sub_cancel_left, List.cons_append, List.getElem_cons_zero,
    List.getElem_cons_succ] at ha hb ⊢
  rw [ha, hb]

theorem IsChain.closed (h : g.IsChain ids) : g.Closed := by
  refine mem_ids_iff_step.2 fun a b hstep => ?_
  have hsubset := ((h.step a b).1 hstep).subset
  exact ⟨h.perm.subset (hsubset (by simp)), h.perm.subset (hsubset (by simp))⟩

theorem IsChain.nodup (h : g.IsChain ids) (hg : g.Distinct) : ids.Nodup := h.perm.nodup_iff.2 hg.nodup

theorem IsChain.idxOf_step (h : g.IsChain ids) (hg : g.Distinct) (hstep : g.Step a b) :
    ids.idxOf b = ids.idxOf a + 1 :=
  idxOf_of_infix (h.nodup hg) ((h.step a b).1 hstep)

theorem IsChain.acyclic (h : g.IsChain ids) (hg : g.Distinct) : g.Acyclic :=
  acyclic_of_rank ids.idxOf fun e he => by
    rw [h.idxOf_step hg ⟨e, he, rfl, rfl⟩]
    exact Nat.lt_succ_self _

theorem IsChain.leftUnique (h : g.IsChain ids) (hg : g.Distinct) : Relator.LeftUnique g.Step := by
  intro a a' b hstep hstep'
  have hmem : a ∈ ids := ((h.step a b).1 hstep).subset (by simp)
  refine (List.idxOf_inj hmem).1 (Nat.succ.inj ?_)
  rw [Nat.succ_eq_add_one, Nat.succ_eq_add_one, ← h.idxOf_step hg hstep, ← h.idxOf_step hg hstep']

theorem pairwise_idxOf (hids : ids.Nodup) : ids.Pairwise (ids.idxOf · < ids.idxOf ·) := by
  refine List.pairwise_iff_getElem.2 fun i j hi hj hij => ?_
  rwa [hids.idxOf_getElem i hi, hids.idxOf_getElem j hj]

/-- There is one order of the nodes of a chain that leads along its edges. -/
theorem IsChain.eq_of_along (h : g.IsChain ids) (hg : g.Distinct) (hperm : order.Perm g.nodes)
    (halong : ∀ e ∈ g.edges,
      (order.map (·.id)).idxOf e.source < (order.map (·.id)).idxOf e.target) :
    order.map (·.id) = ids := by
  let before (a b : String) : Prop := (order.map (·.id)).idxOf a < (order.map (·.id)).idxOf b
  have : Trans before before before := ⟨Nat.lt_trans⟩
  have hids : (order.map (·.id)).Perm g.ids := hperm.map _
  have hchain : ids.IsChain before := by
    refine List.isChain_iff_forall_rel_of_append_cons_cons.2 fun a b front back hsplit => ?_
    obtain ⟨e, he, rfl, rfl⟩ := (h.step a b).2 ⟨front, back, by simp [hsplit]⟩
    exact halong e he
  refine (hids.trans h.perm.symm).eq_of_pairwise (fun a b _ _ hab hba => ?_)
    (pairwise_idxOf (hids.nodup_iff.2 hg.nodup)) (List.isChain_iff_pairwise.1 hchain)
  exact absurd hab (Nat.lt_asymm hba)

/-- Nodes of a graph are known by their identifiers. -/
theorem eq_of_ids (hg : g.Distinct) (h : order ⊆ g.nodes) (h' : order' ⊆ g.nodes)
    (hids : order.map (·.id) = order'.map (·.id)) : order = order' := by
  refine List.ext_getElem (by simpa using congrArg List.length hids) fun i hi hi' => ?_
  refine List.inj_on_of_nodup_map hg.nodup (h (List.getElem_mem hi)) (h' (List.getElem_mem hi')) ?_
  simpa [hi, hi'] using congrArg (·[i]?) hids

end Chains

/-- Both traversals plan every node of an acyclic graph once. If no node has two predecessors the
depth-first plan leads along every edge, and on a chain, declared in any order, both plans are the
chain. -/
theorem plans_agree (g : Graph) (hg : g.Distinct) :
    (g.Closed → g.Acyclic → ∃ pre top, g.plan .preorder = .ok pre ∧ g.plan .topological = .ok top
      ∧ pre.Perm top ∧ pre.Perm g.nodes
      ∧ (Relator.LeftUnique g.Step → ∀ e ∈ g.edges,
        (pre.map (·.id)).idxOf e.source < (pre.map (·.id)).idxOf e.target))
    ∧ ∀ ids, g.IsChain ids → ∃ order, g.plan .preorder = .ok order
      ∧ g.plan .topological = .ok order ∧ order.map (·.id) = ids := by
  refine ⟨fun h hc => ?_, fun ids hchain => ?_⟩
  · have hpre := preorder_perm hg h hc
    have htop := nodesAt_greedyPlaces_perm h hc
    exact ⟨_, _, plan_preorder hg, plan_topological hg h hc, hpre.trans htop.symm, hpre,
      fun hu e he => preorder_along_edge h hc hu he⟩
  · have h := hchain.closed
    have hc := hchain.acyclic hg
    have hpre := preorder_perm hg h hc
    have htop := nodesAt_greedyPlaces_perm h hc
    have hpreIds := hchain.eq_of_along hg hpre fun e he =>
      preorder_along_edge h hc (hchain.leftUnique hg) he
    have htopIds := hchain.eq_of_along hg htop fun e he => idxOf_source_lt hg h hc he
    have hsame := eq_of_ids hg hpre.subset htop.subset (hpreIds.trans htopIds.symm)
    exact ⟨g.preorder, plan_preorder hg, hsame ▸ plan_topological hg h hc, hpreIds⟩

/-- Four nodes in a row, declared out of order, with one edge drawn twice. -/
def row : Graph where
  nodes := [⟨"test", "test_jest", []⟩, ⟨"deploy", "deploy", []⟩, ⟨"start", "start", []⟩,
    ⟨"build", "build_vite", []⟩]
  edges := [⟨"1", "test", "deploy"⟩, ⟨"2", "start", "build"⟩, ⟨"3", "build", "test"⟩,
    ⟨"4", "start", "build"⟩]

theorem isChain_row : row.IsChain ["start", "build", "test", "deploy"] := by
  refine ⟨by decide, fun a b => ?_⟩
  simp only [Step, row, List.mem_cons, List.not_mem_nil, or_false, exists_eq_or_imp, exists_eq_left,
    List.infix_cons_iff, List.cons_prefix_cons, List.infix_nil, List.prefix_nil, List.nil_prefix]
  grind

/-- The plans of `row` are one, and those of `diamond` hold the same nodes in two orders. -/
theorem plans_agree_row : (∃ order, row.plan .preorder = .ok order
      ∧ row.plan .topological = .ok order
      ∧ order.map (·.id) = ["start", "build", "test", "deploy"])
    ∧ ∃ pre top, diamond.plan .preorder = .ok pre ∧ diamond.plan .topological = .ok top
      ∧ pre.Perm top ∧ pre.map (·.id) = ["build", "lint", "deploy", "test"]
      ∧ top.map (·.id) = ["build", "test", "lint", "deploy"] := by
  have hdiamond : diamond.Acyclic :=
    acyclic_of_rank ["build", "test", "lint", "deploy"].idxOf (by decide)
  obtain ⟨pre, top, hpre, htop, hperm, -⟩ :=
    (plans_agree diamond ⟨by decide, by decide⟩).1 (by unfold Closed; decide) hdiamond
  refine ⟨(plans_agree row ⟨by decide, by decide⟩).2 _ isChain_row, pre, top, hpre, htop, hperm,
    ?_, ?_⟩
  · obtain rfl : diamond.preorder = pre := Except.ok.inj hpre
    decide
  · obtain rfl := Except.ok.inj (htop.symm.trans (show diamond.plan .topological = .ok
      (["build", "test", "lint", "deploy"].filterMap diamond.node?) by decide))
    decide

end BuildPipeline.Graph
