import BuildPipeline.Proofs.DocumentLaws
import BuildPipeline.Proofs.TopologicalPlan

/-! Laws of plans: whatever the traversal, no node is planned twice, and a traversal that is known
is not refused as unknown. -/

namespace BuildPipeline.Graph

variable {g : Graph}

theorem walk_nodup {fuel : Nat} {stack seen : List String} (h : seen.Nodup) :
    (g.walk fuel stack seen).Nodup := by
  induction fuel generalizing stack seen with
  | zero => exact h
  | succ fuel ih =>
    cases stack with
    | nil => exact h
    | cons id stack =>
      rw [walk]
      split
      case isTrue => exact ih h
      case isFalse hid =>
        refine ih (List.nodup_append.2 ⟨h, List.nodup_singleton id, fun a ha b hb => ?_⟩)
        rw [List.mem_singleton.1 hb]
        rintro rfl
        exact hid (List.contains_iff_mem.2 ha)

theorem preorderIds_nodup (g : Graph) : g.preorderIds.Nodup := by
  have hfold (entries seen : List String) (h : seen.Nodup) :
      (entries.foldl (fun seen id => g.walk g.walkFuel [id] seen) seen).Nodup := by
    induction entries generalizing seen with
    | nil => exact h
    | cons id entries ih => exact ih _ (walk_nodup h)
  exact hfold g.entries [] List.nodup_nil

theorem node?_id {id : String} {n : Node} (h : g.node? id = some n) : n.id = id := by
  simpa using List.find?_some h

theorem map_id_filterMap_node? (g : Graph) (ids : List String) :
    ((ids.filterMap g.node?).map (·.id)).Sublist ids := by
  induction ids with
  | nil => simp
  | cons id ids ih =>
    cases h : g.node? id with
    | none => simpa [h] using ih.cons id
    | some n => simpa [h, node?_id h] using ih

theorem preorder_ids_nodup (g : Graph) : (g.preorder.map (·.id)).Nodup :=
  (map_id_filterMap_node? g _).nodup g.preorderIds_nodup

theorem topological_eq_nodesAt {order : List Node} (h : g.topological = .ok order) :
    g.Closed ∧ order = g.nodesAt g.greedyPlaces := by
  simp only [topological, topologicalVisiting] at h
  obtain ⟨_, hedges, h⟩ := bind_eq_ok.1 h
  have hclosed := forM_checkEdge_eq_ok.1 hedges
  rw [placesVisiting_eq hclosed fun i => .rfl] at h
  refine ⟨hclosed, ?_⟩
  split at h
  · exact (Except.ok.inj h).symm
  · cases h

theorem topological_ids_nodup (hg : g.Distinct) {order : List Node}
    (h : g.topological = .ok order) : (order.map (·.id)).Nodup := by
  obtain ⟨-, rfl⟩ := topological_eq_nodesAt h
  rw [map_id_nodesAt]
  refine (greedyFrom_fresh _ _).1.filterMap fun i j id hi hj => ?_
  obtain ⟨hi, rfl⟩ := List.getElem?_eq_some_iff.1 hi
  obtain ⟨hj, hij⟩ := List.getElem?_eq_some_iff.1 hj
  exact hg.nodup.getElem_inj_iff.1 hij.symm

/-- No two nodes of a plan have one identifier. -/
theorem plan_ids_nodup {t : Traversal} {order : List Node} (h : g.plan t = .ok order) :
    (order.map (·.id)).Nodup := by
  rw [plan.eq_def] at h
  obtain ⟨_, hids, h⟩ := bind_eq_ok.1 h
  cases t with
  | preorder =>
    obtain rfl := Except.ok.inj h
    exact g.preorder_ids_nodup
  | topological => exact topological_ids_nodup (checkIds_eq_ok.1 hids) h

section Refusals

variable {name : String}

theorem bind_ne_error {ε α β : Type} {x : Except ε α} {f : α → Except ε β} {e : ε}
    (hx : x ≠ .error e) (hf : ∀ a, f a ≠ .error e) : x >>= f ≠ .error e := by
  cases x with
  | ok a => exact hf a
  | error e' => exact fun h => hx (by cases h; rfl)

theorem forM_ne_error {ε α : Type} {f : α → Except ε Unit} {e : ε} (h : ∀ a, f a ≠ .error e)
    (as : List α) : forM as f ≠ .error e := by
  induction as with
  | nil => exact nofun
  | cons a as ih =>
    rw [List.forM_cons]
    exact bind_ne_error (h a) fun _ => ih

theorem checkIdsFrom_ne_unknownTraversal (seen : List String) (ns : List Node) :
    checkIdsFrom seen ns ≠ .error (.unknownTraversal name) := by
  induction ns generalizing seen with
  | nil => simp [checkIdsFrom]
  | cons n ns ih =>
    rw [checkIdsFrom]
    split_ifs
    · simp
    · simp
    · exact ih _

theorem checkEdge_ne_unknownTraversal (g : Graph) (e : Edge) :
    g.checkEdge e ≠ .error (.unknownTraversal name) := by
  rw [checkEdge]
  split_ifs <;> simp

/-- An order of visits that is known is never found to be unknown. -/
theorem plan_ne_unknownTraversal (g : Graph) (t : Traversal) :
    g.plan t ≠ .error (.unknownTraversal name) := by
  refine bind_ne_error (checkIdsFrom_ne_unknownTraversal [] g.nodes) fun _ => ?_
  cases t with
  | preorder => exact nofun
  | topological =>
    refine bind_ne_error (forM_ne_error g.checkEdge_ne_unknownTraversal g.edges) fun _ => ?_
    dsimp only
    split_ifs <;> exact nofun

theorem planNamed_name (g : Graph) (t : Traversal) : g.planNamed t.name = g.plan t := by
  cases t <;> rfl

end Refusals

end BuildPipeline.Graph
