import BuildPipeline.Proofs.TopologicalPlan

/-! Cycles.  A graph has a topological plan unless it has a cycle, and what cannot be planned then is
what lies on a cycle or behind one. -/

namespace BuildPipeline.Graph

variable {g : Graph} {a b id : String}

/-- A node that lies on a cycle or that steps lead to from one. -/
def BehindCycle (g : Graph) (id : String) : Prop :=
  ∃ c, Relation.TransGen g.Step c c ∧ Relation.ReflTransGen g.Step c id

/-- The identifiers of the scheduled places, in the order of the schedule. -/
def planned (g : Graph) : List String := (g.nodesAt g.greedyPlaces).map (·.id)

/-- The places that are left when no place can be scheduled any more. -/
def stuckPlaces (g : Graph) : List Nat :=
  (List.range g.nodes.length).filter (!g.greedyPlaces.contains ·)

theorem plan_topological_of_closed (hg : g.Distinct) (h : g.Closed) :
    g.plan .topological = if g.stuckPlaces.isEmpty then .ok (g.nodesAt g.greedyPlaces)
      else .error (.cycle ((g.nodesAt g.stuckPlaces).map (·.id))) := by
  simp only [plan, checkIds_eq_ok.2 hg, topological, topologicalVisiting,
    forM_checkEdge_eq_ok.2 h, placesVisiting_eq h fun i => List.Perm.refl _]
  rw [nodesAt, nodesAt, List.map_filterMap]
  rfl

section Planned

/-- Whatever leads to a planned node is planned before it. -/
theorem idxOf_lt_of_transGen (hg : g.Distinct) (hstep : Relation.TransGen g.Step a b)
    (hb : b ∈ g.planned) : g.planned.idxOf a < g.planned.idxOf b := by
  have hlt {a b : String} (hstep : g.Step a b) (hb : b ∈ g.planned) :
      g.planned.idxOf a < g.planned.idxOf b := by
    obtain ⟨e, he, rfl, rfl⟩ := hstep
    exact idxOf_source_lt_of_mem hg he hb
  induction hstep with
  | single hstep => exact hlt hstep hb
  | @tail m b _ hstep ih =>
    have hm := hlt hstep hb
    have hmem : m ∈ g.planned :=
      List.idxOf_lt_length_iff.1 (hm.trans (List.idxOf_lt_length_of_mem hb))
    exact (ih hmem).trans hm

theorem not_mem_planned (hg : g.Distinct) (h : g.BehindCycle id) : id ∉ g.planned := by
  obtain ⟨c, hcycle, hreach⟩ := h
  intro hid
  have hc : c ∈ g.planned := by
    rcases Relation.reflTransGen_iff_eq_or_transGen.1 hreach with rfl | hreach
    · exact hid
    · have hlt := idxOf_lt_of_transGen hg hreach hid
      exact List.idxOf_lt_length_iff.1 (hlt.trans (List.idxOf_lt_length_of_mem hid))
  exact (idxOf_lt_of_transGen hg hcycle hc).ne rfl

end Planned

section Stuck

theorem mem_stuckPlaces {i : Nat} :
    i ∈ g.stuckPlaces ↔ i < g.nodes.length ∧ i ∉ g.greedyPlaces := by
  simp [stuckPlaces]

theorem behindCycle_of_stuck (h : g.Closed) {i : Nat} (hi : i ∈ g.stuckPlaces) :
    g.BehindCycle (g.idAt i) := by
  obtain ⟨hlt, hout⟩ := mem_stuckPlaces.1 hi
  obtain ⟨c, hcycle, hreach⟩ := exists_cycle_of_stuck (fun l hl => (h.links_lt hl).1) hlt hout
  exact ⟨g.idAt c, hcycle.lift g.idAt fun a b => h.step_of_link,
    hreach.lift g.idAt fun a b => h.step_of_link⟩

theorem mem_stuck_iff (hg : g.Distinct) (h : g.Closed) :
    id ∈ (g.nodesAt g.stuckPlaces).map (·.id) ↔ id ∈ g.ids ∧ g.BehindCycle id := by
  rw [map_id_nodesAt, List.mem_filterMap]
  constructor
  · rintro ⟨i, hi, hid⟩
    have hidAt : g.idAt i = id := by rw [idAt, List.getD_eq_getElem?_getD, hid, Option.getD_some]
    exact ⟨List.mem_of_getElem? hid, hidAt ▸ behindCycle_of_stuck h hi⟩
  · rintro ⟨hid, hbehind⟩
    refine ⟨g.ids.idxOf id, mem_stuckPlaces.2 ⟨idxOf_lt hid, fun hin => ?_⟩, List.getElem?_idxOf hid⟩
    apply not_mem_planned hg hbehind
    rw [planned, map_id_nodesAt, List.mem_filterMap]
    exact ⟨_, hin, List.getElem?_idxOf hid⟩

theorem stuck_sublist (g : Graph) : ((g.nodesAt g.stuckPlaces).map (·.id)).Sublist g.ids := by
  have hall : (g.nodesAt g.stuckPlaces).Sublist (g.nodesAt (List.range g.nodes.length)) :=
    List.filter_sublist.filterMap _
  rw [nodesAt_range] at hall
  exact hall.map _

theorem Closed.mem_ids_of_cycle (h : g.Closed) (hcycle : Relation.TransGen g.Step id id) :
    id ∈ g.ids := by
  obtain ⟨b, -, e, he, -, rfl⟩ := Relation.TransGen.tail'_iff.1 hcycle
  exact (h e he).2

theorem stuckPlaces_isEmpty_iff (hg : g.Distinct) (h : g.Closed) :
    g.stuckPlaces.isEmpty ↔ g.Acyclic := by
  rw [List.isEmpty_iff]
  constructor
  · intro hnone id hcycle
    have hid := (mem_stuck_iff hg h).2 ⟨h.mem_ids_of_cycle hcycle, id, hcycle, .refl⟩
    rw [hnone] at hid
    cases hid
  · intro hc
    rw [List.eq_nil_iff_forall_not_mem]
    intro i hi
    obtain ⟨c, hcycle, -⟩ := behindCycle_of_stuck h hi
    exact hc c hcycle

end Stuck

/-- A closed graph has a topological plan unless some node leads back to itself.  Then planning fails
with a cycle and nothing else, and it names, in order of declaration, the nodes that lie on a cycle
or behind one. -/
theorem plan_topological_cycle (g : Graph) (hg : g.Distinct) (h : g.Closed) :
    ((∃ ids, g.plan .topological = .error (.cycle ids))
        ↔ ∃ id, Relation.TransGen g.Step id id)
      ∧ ∀ e, g.plan .topological = .error e →
          e.kind = "CycleDetectedError"
          ∧ ∃ ids, e.message = "Cycle detected in execution graph involving nodes: "
              ++ ", ".intercalate ids
            ∧ e = .cycle ids ∧ ids.Sublist g.ids
            ∧ ∀ id, id ∈ ids ↔ id ∈ g.ids ∧ ∃ c, Relation.TransGen g.Step c c
                ∧ Relation.ReflTransGen g.Step c id := by
  rw [plan_topological_of_closed hg h]
  by_cases hstuck : g.stuckPlaces.isEmpty
  · rw [if_pos hstuck]
    have hc := (stuckPlaces_isEmpty_iff hg h).1 hstuck
    constructor
    · constructor
      · rintro ⟨ids, hids⟩
        cases hids
      · rintro ⟨id, hid⟩
        exact absurd hid (hc id)
    · intro e he
      cases he
  · rw [if_neg hstuck]
    have hc := mt (stuckPlaces_isEmpty_iff hg h).2 hstuck
    constructor
    · refine iff_of_true ⟨_, rfl⟩ ?_
      by_contra hnone
      push Not at hnone
      exact hc hnone
    · intro e he
      cases he
      exact ⟨rfl, _, rfl, rfl, g.stuck_sublist, fun id => mem_stuck_iff hg h⟩

/-- A loop and a cycle of two, with nodes before, between and behind them. -/
def knots : Graph where
  nodes := [⟨"deploy", "deploy", []⟩, ⟨"start", "start", []⟩, ⟨"lint", "test_mocha", []⟩,
    ⟨"build", "build_vite", []⟩, ⟨"aside", "test_jest", []⟩, ⟨"test", "test_jest", []⟩]
  edges := [⟨"1", "start", "build"⟩, ⟨"2", "build", "test"⟩, ⟨"3", "test", "build"⟩,
    ⟨"4", "test", "deploy"⟩, ⟨"5", "lint", "lint"⟩, ⟨"6", "start", "aside"⟩]

theorem plan_topological_knots : ∃ e, knots.plan .topological = .error e
    ∧ e.message = "Cycle detected in execution graph involving nodes: deploy, lint, build, test"
    ∧ ¬ knots.BehindCycle "aside" := by
  obtain ⟨hcycle, herror⟩ := plan_topological_cycle knots ⟨by decide, by decide⟩
    (by unfold Closed; decide)
  have hself : Relation.TransGen knots.Step "lint" "lint" :=
    .single ⟨⟨"5", "lint", "lint"⟩, by decide, rfl, rfl⟩
  obtain ⟨ids, hplan⟩ := hcycle.2 ⟨"lint", hself⟩
  obtain ⟨-, ids', hmessage, he, -, hmem⟩ := herror _ hplan
  obtain rfl : ids = ids' := PlanError.cycle.inj he
  obtain rfl : ids = ["deploy", "lint", "build", "test"] := by
    rw [show knots.plan .topological = .error (.cycle ["deploy", "lint", "build", "test"]) by
      decide] at hplan
    cases hplan
    rfl
  refine ⟨_, hplan, hmessage, fun hbehind => ?_⟩
  exact absurd ((hmem "aside").2 ⟨by decide, hbehind⟩) (by decide)

end BuildPipeline.Graph
