import BuildPipeline.Graph.Plan
import BuildPipeline.Proofs.DocumentLaws
import Mathlib.Data.List.Nodup
import Mathlib.Logic.Relation
import Mathlib.Tactic.Tauto

/-! Laws of graphs that every traversal relies on: when a graph passes the checks of planning, and
where the nodes of an identifier and of a place are. -/

namespace BuildPipeline

theorem mem_firsts {α : Type} [BEq α] [LawfulBEq α] {as : List α} {a : α} :
    a ∈ firsts as ↔ a ∈ as := by
  suffices h : ∀ seen, a ∈ as.foldl (fun seen a => if seen.contains a then seen else seen ++ [a]) seen
      ↔ a ∈ seen ∨ a ∈ as by simpa [firsts] using h []
  induction as with
  | nil => simp
  | cons b as ih =>
    intro seen
    rw [List.foldl_cons, ih, List.mem_cons]
    split
    · rename_i hb
      have : a = b → a ∈ seen := fun h => h ▸ List.contains_iff_mem.1 hb
      tauto
    · rw [List.mem_append, List.mem_singleton, or_assoc]

namespace Graph

variable {g : Graph}

/-- Some edge leads from one identifier to another. -/
def Step (g : Graph) (a b : String) : Prop := ∃ e ∈ g.edges, e.source = a ∧ e.target = b

def Acyclic (g : Graph) : Prop := ∀ id, ¬ Relation.TransGen g.Step id id

/-- Identifiers are distinct and not blank. -/
structure Distinct (g : Graph) : Prop where
  nodup : g.ids.Nodup
  visible : ∀ n ∈ g.nodes, Text.isBlankText n.id = false

/-- Every edge leads from a declared node to a declared node. -/
def Closed (g : Graph) : Prop := ∀ e ∈ g.edges, e.source ∈ g.ids ∧ e.target ∈ g.ids

theorem checkIdsFrom_eq_ok {ns : List Node} {seen : List String} :
    checkIdsFrom seen ns = .ok () ↔ (∀ n ∈ ns, Text.isBlankText n.id = false) ∧
      (ns.map (·.id)).Nodup ∧ ∀ n ∈ ns, n.id ∉ seen := by
  induction ns generalizing seen with
  | nil => simp [checkIdsFrom]
  | cons n ns ih =>
    rw [checkIdsFrom]
    split
    · rename_i hb
      simp [hb]
    · split
      · rename_i hs
        simp [List.contains_iff_mem.1 hs]
      · rename_i hb hs
        rw [ih]
        simp only [List.mem_cons, forall_eq_or_imp, List.map_cons, List.nodup_cons, not_or,
          List.mem_map, not_exists, not_and, List.contains_eq_mem, decide_eq_true_eq] at hs ⊢
        constructor
        · rintro ⟨hv, hn, hf⟩
          exact ⟨⟨by simpa using hb, hv⟩, ⟨fun m hm => (hf m hm).1, hn⟩, hs, fun m hm => (hf m hm).2⟩
        · rintro ⟨⟨-, hv⟩, ⟨hne, hn⟩, -, hf⟩
          exact ⟨hv, hn, fun m hm => ⟨hne m hm, hf m hm⟩⟩

theorem checkIds_eq_ok : g.checkIds = .ok () ↔ g.Distinct := by
  rw [checkIds, checkIdsFrom_eq_ok]
  constructor
  · rintro ⟨hv, hn, -⟩
    exact ⟨hn, hv⟩
  · rintro ⟨hn, hv⟩
    exact ⟨hv, hn, by simp⟩

theorem checkEdge_eq_ok {e : Edge} :
    g.checkEdge e = .ok () ↔ e.source ∈ g.ids ∧ e.target ∈ g.ids := by
  rw [checkEdge]
  split
  · rename_i h
    have : e.source ∉ g.ids := by simpa [declares] using h
    simp [this]
  · split <;> simp_all [declares]

theorem forM_checkEdge_eq_ok : g.edges.forM g.checkEdge = .ok () ↔ g.Closed := by
  simp only [List.forM_eq_forM, forM_eq_ok, checkEdge_eq_ok, Closed]

section Places

theorem Distinct.nodes_nodup (h : g.Distinct) : g.nodes.Nodup := List.Nodup.of_map _ h.nodup

theorem Distinct.idxOf_id (h : g.Distinct) {i : Nat} (hi : i < g.nodes.length) :
    g.ids.idxOf g.nodes[i].id = i := by
  have := h.nodup.idxOf_getElem i (by simpa [ids] using hi)
  simpa [ids] using this

theorem idxOf_lt {id : String} (h : id ∈ g.ids) : g.ids.idxOf id < g.nodes.length := by
  simpa [ids] using List.idxOf_lt_length_of_mem h

theorem id_getElem_idxOf {id : String} (h : g.ids.idxOf id < g.nodes.length) :
    g.nodes[g.ids.idxOf id].id = id := by
  have := List.getElem_idxOf (show g.ids.idxOf id < g.ids.length by simpa [ids] using h)
  simpa only [ids, List.getElem_map] using this

/-- The nodes at some places. -/
def nodesAt (g : Graph) (places : List Nat) : List Node := places.filterMap (g.nodes[·]?)

variable {places : List Nat}

theorem nodesAt_cons {i : Nat} (hi : i < g.nodes.length) :
    g.nodesAt (i :: places) = g.nodes[i] :: g.nodesAt places := by
  simp [nodesAt, hi]

theorem length_nodesAt (h : ∀ i ∈ places, i < g.nodes.length) :
    (g.nodesAt places).length = places.length := by
  induction places with
  | nil => rfl
  | cons i ps ih =>
    rw [nodesAt_cons (h i List.mem_cons_self), List.length_cons, List.length_cons,
      ih fun j hj => h j (List.mem_cons_of_mem _ hj)]

theorem nodesAt_take (h : ∀ i ∈ places, i < g.nodes.length) (k : Nat) :
    (g.nodesAt places).take k = g.nodesAt (places.take k) := by
  induction places generalizing k with
  | nil => simp [nodesAt]
  | cons i ps ih =>
    cases k with
    | zero => simp [nodesAt]
    | succ k =>
      have hi := h i List.mem_cons_self
      rw [nodesAt_cons hi, List.take_succ_cons, List.take_succ_cons, nodesAt_cons hi,
        ih fun j hj => h j (List.mem_cons_of_mem _ hj)]

theorem getElem?_nodesAt (h : ∀ i ∈ places, i < g.nodes.length) (k : Nat) :
    (g.nodesAt places)[k]? = places[k]?.bind (g.nodes[·]?) := by
  induction places generalizing k with
  | nil => simp [nodesAt]
  | cons i ps ih =>
    have hi := h i List.mem_cons_self
    rw [nodesAt_cons hi]
    cases k with
    | zero => simp [hi]
    | succ k => simpa using ih (fun j hj => h j (List.mem_cons_of_mem _ hj)) k

theorem nodesAt_range (g : Graph) : g.nodesAt (List.range g.nodes.length) = g.nodes := by
  refine List.ext_getElem? fun k => ?_
  rw [getElem?_nodesAt fun i hi => List.mem_range.1 hi]
  by_cases hk : k < g.nodes.length
  · simp [hk]
  · simp [hk]

theorem mem_nodesAt_iff (hg : g.Distinct) {i : Nat} (hi : i < g.nodes.length) :
    g.nodes[i] ∈ g.nodesAt places ↔ i ∈ places := by
  rw [nodesAt, List.mem_filterMap]
  constructor
  · rintro ⟨j, hj, hji⟩
    obtain ⟨hjl, hji⟩ := List.getElem?_eq_some_iff.1 hji
    rwa [← hg.nodes_nodup.getElem_inj_iff.1 hji]
  · intro h
    exact ⟨i, h, List.getElem?_eq_getElem hi⟩

end Places

end Graph

end BuildPipeline
