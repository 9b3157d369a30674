import BuildPipeline.Proofs.GraphLaws
import BuildPipeline.Proofs.Schedule

/-! Topological plans.  The plan of an acyclic graph is the greedy schedule in order of declaration:
at each place stands the first declared node whose predecessors have all come before. -/

namespace BuildPipeline.Graph

variable {g : Graph}

/-- A node that may come next after the nodes `done`. -/
def isReady (g : Graph) (done : List Node) (n : Node) : Bool :=
  !done.contains n && g.edges.all fun e => e.target != n.id || done.any (·.id == e.source)

section Links

theorem mem_links {a b : Nat} :
    (a, b) ∈ g.links ↔ ∃ e ∈ g.edges, g.ids.idxOf e.source = a ∧ g.ids.idxOf e.target = b := by
  simp [links, mem_firsts]

theorem Closed.links_lt (h : g.Closed) {l : Nat × Nat} (hl : l ∈ g.links) :
    l.1 < g.nodes.length ∧ l.2 < g.nodes.length := by
  obtain ⟨e, he, h1, h2⟩ := mem_links.1 (show (l.1, l.2) ∈ g.links from hl)
  rw [← h1, ← h2]
  exact ⟨idxOf_lt (h e he).1, idxOf_lt (h e he).2⟩

/-- The declared identifier at a place. -/
def idAt (g : Graph) (i : Nat) : String := g.ids.getD i ""

theorem idAt_idxOf {id : String} (h : id ∈ g.ids) : g.idAt (g.ids.idxOf id) = id := by
  rw [idAt, List.getD_eq_getElem?_getD, List.getElem?_idxOf h, Option.getD_some]

theorem Closed.step_of_link (h : g.Closed) {a b : Nat} (hl : (a, b) ∈ g.links) :
    g.Step (g.idAt a) (g.idAt b) := by
  obtain ⟨e, he, rfl, rfl⟩ := mem_links.1 hl
  refine ⟨e, he, ?_, ?_⟩
  · rw [idAt_idxOf (h e he).1]
  · rw [idAt_idxOf (h e he).2]

theorem Acyclic.links (hc : g.Acyclic) (h : g.Closed) : AcyclicLinks g.links := by
  intro i hi
  exact hc (g.idAt i) (hi.lift g.idAt fun a b => h.step_of_link)

theorem isOpen_links (hg : g.Distinct) {i : Nat} (hi : i < g.nodes.length)
    {done : List Nat} (hd : ∀ j ∈ done, j < g.nodes.length) :
    isOpen g.links done i = g.isReady (g.nodesAt done) g.nodes[i] := by
  have hsource : ∀ e, (g.nodesAt done).any (·.id == e) = true ↔ g.ids.idxOf e ∈ done := by
    intro e
    rw [List.any_eq_true]
    constructor
    · rintro ⟨m, hm, hid⟩
      obtain ⟨j, hj, hjm⟩ := List.mem_filterMap.1 hm
      obtain ⟨hjl, rfl⟩ := List.getElem?_eq_some_iff.1 hjm
      rwa [← beq_iff_eq.1 hid, hg.idxOf_id hjl]
    · intro hj
      have hjl := hd _ hj
      exact ⟨g.nodes[g.ids.idxOf e], (mem_nodesAt_iff hg hjl).2 hj, by
        rw [id_getElem_idxOf hjl, beq_self_eq_true]⟩
  have htarget : ∀ e ∈ g.edges, g.ids.idxOf e.target = i ↔ e.target = g.nodes[i].id := by
    intro e he
    constructor
    · rintro rfl
      exact (id_getElem_idxOf hi).symm
    · intro ht
      rw [ht, hg.idxOf_id hi]
  rw [Bool.eq_iff_iff, isOpen_iff, isReady]
  simp only [Bool.and_eq_true, Bool.not_eq_true', List.contains_eq_mem, decide_eq_false_iff_not,
    List.all_eq_true, Bool.or_eq_true, bne_iff_ne, hsource, mem_nodesAt_iff hg hi, mem_links]
  refine and_congr_right fun _ => ⟨fun hp e he => ?_, ?_⟩
  · by_cases ht : e.target = g.nodes[i].id
    · exact Or.inr (hp _ ⟨e, he, rfl, (htarget e he).2 ht⟩)
    · exact Or.inl ht
  · rintro hp a ⟨e, he, rfl, ht⟩
    exact (hp e he).resolve_left (not_not.2 ((htarget e he).1 ht))

end Links

section Greedy

/-- The places of a plan: the greedy schedule of all of them. -/
def greedyPlaces (g : Graph) : List Nat := greedyFrom g.links g.nodes.length g.nodes.length []

theorem greedyPlaces_lt {i : Nat} (hi : i ∈ g.greedyPlaces) : i < g.nodes.length :=
  ((greedyFrom_fresh _ _).2 i hi).1

theorem greedyPlaces_perm (h : g.Closed) (hc : g.Acyclic) :
    g.greedyPlaces.Perm (List.range g.nodes.length) :=
  greedyFrom_perm (hc.links h) fun _ hl => (h.links_lt hl).1

theorem placesVisiting_eq (h : g.Closed) {next : Nat → List Nat}
    (hn : ∀ i, (next i).Perm (successors g.links i)) : g.placesVisiting next = g.greedyPlaces := by
  have htracks : Tracks g.nodes.length [] (pending g.links []) (frontier g.links g.nodes.length) := by
    rw [show pending g.links [] = g.links by simp [pending]]
    exact Tracks.frontier fun l hl => (h.links_lt hl).2
  exact schedule_eq_greedyFrom hn g.nodes.length htracks

theorem topologicalVisiting_eq (h : g.Closed) (hc : g.Acyclic) {next : Nat → List Nat}
    (hn : ∀ i, (next i).Perm (successors g.links i)) :
    g.topologicalVisiting next = .ok (g.nodesAt g.greedyPlaces) := by
  have hstuck : (List.range g.nodes.length).filter (!g.greedyPlaces.contains ·) = [] := by
    rw [List.filter_eq_nil_iff]
    intro i hi
    simp [(greedyPlaces_perm h hc).mem_iff.2 hi]
  simp only [topologicalVisiting, forM_checkEdge_eq_ok.2 h, placesVisiting_eq h hn, hstuck]
  rfl

/-- Places depend on the identifiers in order of declaration and on the steps between them. -/
theorem greedyPlaces_congr {g' : Graph} (hids : g'.ids = g.ids)
    (hs : ∀ a b, g'.Step a b ↔ g.Step a b) : g'.greedyPlaces = g.greedyPlaces := by
  have hlen : g'.nodes.length = g.nodes.length := by
    simpa [ids] using congrArg List.length hids
  have hlinks : ∀ l, l ∈ g'.links ↔ l ∈ g.links := by
    rintro ⟨a, b⟩
    rw [mem_links, mem_links, hids]
    constructor
    · rintro ⟨e, he, rfl, rfl⟩
      obtain ⟨e', he', h1, h2⟩ := (hs e.source e.target).1 ⟨e, he, rfl, rfl⟩
      exact ⟨e', he', by rw [h1], by rw [h2]⟩
    · rintro ⟨e, he, rfl, rfl⟩
      obtain ⟨e', he', h1, h2⟩ := (hs e.source e.target).2 ⟨e, he, rfl, rfl⟩
      exact ⟨e', he', by rw [h1], by rw [h2]⟩
  rw [greedyPlaces, greedyPlaces, hlen]
  exact greedyFrom_congr hlinks _ _ _

/-- What stands at each place of the plan is the first node that is ready there. -/
theorem find?_isReady (hg : g.Distinct) (k : Nat)
    (hk : k < (g.nodesAt g.greedyPlaces).length) :
    g.nodes.find? (g.isReady ((g.nodesAt g.greedyPlaces).take k))
      = some (g.nodesAt g.greedyPlaces)[k] := by
  have hlt : ∀ i ∈ g.greedyPlaces, i < g.nodes.length := fun i hi => greedyPlaces_lt hi
  have htake : ∀ i ∈ g.greedyPlaces.take k, i < g.nodes.length :=
    fun i hi => hlt i (List.mem_of_mem_take hi)
  have hkp : k < g.greedyPlaces.length := by rwa [length_nodesAt hlt] at hk
  have hopen : (List.range g.nodes.length).find? (isOpen g.links (g.greedyPlaces.take k))
      = some g.greedyPlaces[k] := greedyFrom_take g.nodes.length [] k hkp
  have hi := hlt _ (List.getElem_mem hkp)
  obtain ⟨ho, -, hleast⟩ := List.find?_range_eq_some.1 hopen
  have hnode : (g.nodesAt g.greedyPlaces)[k] = g.nodes[g.greedyPlaces[k]] := by
    have := getElem?_nodesAt hlt k
    rw [List.getElem?_eq_getElem hk, List.getElem?_eq_getElem hkp, Option.bind_some,
      List.getElem?_eq_getElem hi] at this
    exact Option.some.inj this
  rw [nodesAt_take hlt, hnode, List.find?_eq_some_iff_getElem]
  refine ⟨?_, _, hi, rfl, fun j hj => ?_⟩
  · rw [← isOpen_links hg hi htake]
    exact ho
  · rw [← isOpen_links hg (by omega) htake]
    exact hleast j hj

theorem idxOf_lt_of_mem_take {ids : List String} {id : String} {k : Nat} (h : id ∈ ids.take k) :
    ids.idxOf id < k := by
  calc
    ids.idxOf id = (ids.take k ++ ids.drop k).idxOf id := by rw [List.take_append_drop]
    _ = (ids.take k).idxOf id := by rw [List.idxOf_append, if_pos h]
    _ < (ids.take k).length := List.idxOf_lt_length_of_mem h
    _ ≤ k := List.length_take_le k ids

theorem nodesAt_greedyPlaces_perm (h : g.Closed) (hc : g.Acyclic) :
    (g.nodesAt g.greedyPlaces).Perm g.nodes :=
  ((greedyPlaces_perm h hc).filterMap (g.nodes[·]?)).trans (.of_eq g.nodesAt_range)

/-- The source of an edge to a planned node is planned before it. -/
theorem idxOf_source_lt_of_mem (hg : g.Distinct) {e : Edge} (he : e ∈ g.edges)
    (hmem : e.target ∈ (g.nodesAt g.greedyPlaces).map (·.id)) :
    ((g.nodesAt g.greedyPlaces).map (·.id)).idxOf e.source
      < ((g.nodesAt g.greedyPlaces).map (·.id)).idxOf e.target := by
  set order := g.nodesAt g.greedyPlaces with horder
  have hk := List.idxOf_lt_length_of_mem hmem
  rw [List.length_map] at hk
  have hready := List.find?_some (find?_isReady hg _ hk)
  have hid : order[(order.map (·.id)).idxOf e.target].id = e.target := by
    have := List.getElem_idxOf (List.idxOf_lt_length_of_mem hmem)
    simpa only [List.getElem_map] using this
  simp only [isReady, Bool.and_eq_true, List.all_eq_true, Bool.or_eq_true, bne_iff_ne] at hready
  obtain ⟨m, hm, hms⟩ := List.any_eq_true.1 ((hready.2 e he).resolve_left (not_not.2 hid.symm))
  have hsource : e.source ∈ (order.map (·.id)).take ((order.map (·.id)).idxOf e.target) := by
    rw [← List.map_take, ← beq_iff_eq.1 hms]
    exact List.mem_map_of_mem hm
  exact idxOf_lt_of_mem_take hsource

theorem idxOf_source_lt (hg : g.Distinct) (h : g.Closed) (hc : g.Acyclic) {e : Edge}
    (he : e ∈ g.edges) : ((g.nodesAt g.greedyPlaces).map (·.id)).idxOf e.source
      < ((g.nodesAt g.greedyPlaces).map (·.id)).idxOf e.target :=
  idxOf_source_lt_of_mem hg he (((nodesAt_greedyPlaces_perm h hc).map _).mem_iff.2 (h e he).2)

theorem plan_topological (hg : g.Distinct) (h : g.Closed) (hc : g.Acyclic) :
    g.plan .topological = .ok (g.nodesAt g.greedyPlaces) := by
  simp only [plan, checkIds_eq_ok.2 hg, topological]
  exact topologicalVisiting_eq h hc fun _ => List.Perm.refl _

section Congruence

variable {g' : Graph}

theorem mem_ids_iff_step : g.Closed ↔ ∀ a b, g.Step a b → a ∈ g.ids ∧ b ∈ g.ids := by
  constructor
  · rintro h a b ⟨e, he, rfl, rfl⟩
    exact h e he
  · intro h e he
    exact h _ _ ⟨e, he, rfl, rfl⟩

theorem Closed.congr (h : g.Closed) (hids : g'.ids = g.ids)
    (hs : ∀ a b, g'.Step a b ↔ g.Step a b) : g'.Closed := by
  rw [mem_ids_iff_step] at h ⊢
  intro a b hab
  rw [hids]
  exact h a b ((hs a b).1 hab)

theorem Acyclic.congr (hc : g.Acyclic) (hs : ∀ a b, g'.Step a b ↔ g.Step a b) : g'.Acyclic := by
  intro id hid
  exact hc id (Relation.TransGen.mono (fun a b => (hs a b).1) _ _ hid)

theorem Distinct.congr (hg : g.Distinct) (hids : g'.ids = g.ids) : g'.Distinct := by
  refine ⟨hids ▸ hg.nodup, fun n hn => ?_⟩
  have hmem : n.id ∈ g.ids := hids ▸ List.mem_map_of_mem hn
  obtain ⟨m, hm, hmn⟩ := List.mem_map.1 hmem
  rw [← hmn]
  exact hg.visible m hm

theorem map_id_nodesAt (g : Graph) (places : List Nat) :
    (g.nodesAt places).map (·.id) = places.filterMap (g.ids[·]?) := by
  simp [nodesAt, ids, List.map_filterMap]

end Congruence

end Greedy

/-- The topological plan of an acyclic graph holds every node once, leads along every edge, and is
the greedy schedule.  It depends on identifiers and steps alone, and on no order of visiting. -/
theorem plan_topological_eq_greedy (g : Graph) (hg : g.Distinct) (h : g.Closed) (hc : g.Acyclic) :
    ∃ order, g.plan .topological = .ok order
      ∧ order.Perm g.nodes
      ∧ (∀ e ∈ g.edges,
          (order.map (·.id)).idxOf e.source < (order.map (·.id)).idxOf e.target)
      ∧ (∀ k, (hk : k < order.length) → g.nodes.find? (g.isReady (order.take k)) = some order[k])
      ∧ (∀ g' : Graph, g'.ids = g.ids → (∀ a b, g'.Step a b ↔ g.Step a b) →
          ∃ order', g'.plan .topological = .ok order' ∧ order'.map (·.id) = order.map (·.id)
            ∧ (g'.nodes = g.nodes → order' = order))
      ∧ (∀ next : Nat → List Nat, (∀ i, (next i).Perm (successors g.links i)) →
          g.topologicalVisiting next = .ok order) := by
  refine ⟨g.nodesAt g.greedyPlaces, plan_topological hg h hc, nodesAt_greedyPlaces_perm h hc,
    fun e he => idxOf_source_lt hg h hc he, find?_isReady hg, fun g' hids hs => ?_,
    fun next hn => topologicalVisiting_eq h hc hn⟩
  have hplaces := greedyPlaces_congr hids hs
  refine ⟨_, plan_topological (hg.congr hids) (h.congr hids hs) (hc.congr hs), ?_, fun hnodes => ?_⟩
  · rw [map_id_nodesAt, map_id_nodesAt, hplaces, hids]
  · rw [nodesAt, nodesAt, hplaces, hnodes]

theorem acyclic_of_rank (rank : String → Nat) (h : ∀ e ∈ g.edges, rank e.source < rank e.target) :
    g.Acyclic := by
  have hlt : ∀ a b, Relation.TransGen g.Step a b → rank a < rank b := by
    intro a b hab
    induction hab with
    | single hs =>
      obtain ⟨e, he, rfl, rfl⟩ := hs
      exact h e he
    | tail _ hs ih =>
      obtain ⟨e, he, rfl, rfl⟩ := hs
      exact ih.trans (h e he)
  exact fun id hid => (hlt id id hid).ne rfl

/-- Two checks behind one build, declared last to first, with one edge drawn twice. -/
def diamond : Graph where
  nodes := [⟨"deploy", "deploy", []⟩, ⟨"test", "test_jest", []⟩, ⟨"lint", "test_mocha", []⟩,
    ⟨"build", "build_vite", []⟩]
  edges := [⟨"1", "test", "deploy"⟩, ⟨"2", "build", "lint"⟩, ⟨"3", "build", "test"⟩,
    ⟨"4", "lint", "deploy"⟩, ⟨"5", "build", "test"⟩]

theorem plan_topological_diamond : ∃ order, diamond.plan .topological = .ok order
    ∧ order.Perm diamond.nodes ∧ order.map (·.id) = ["build", "test", "lint", "deploy"] := by
  obtain ⟨order, hplan, hperm, -⟩ := plan_topological_eq_greedy diamond
    ⟨by decide, by decide⟩ (by unfold Closed; decide)
    (acyclic_of_rank ["build", "test", "lint", "deploy"].idxOf (by decide))
  refine ⟨order, hplan, hperm, ?_⟩
  rw [show diamond.plan .topological = .ok (["build", "test", "lint", "deploy"].filterMap
    diamond.node?) by decide] at hplan
  cases hplan
  rfl

end BuildPipeline.Graph
