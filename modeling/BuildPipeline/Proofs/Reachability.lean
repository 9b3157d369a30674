import BuildPipeline.Proofs.DepthFirst

/-! Reachability.  A depth-first plan holds the nodes that can be reached from an entry and no
others, and leads to each of them from a node before it. -/

namespace BuildPipeline.Graph

variable {g : Graph} {id c : String} {seen : List String} {s t : List String × List String}

/-- A declared node that no edge ends in. -/
def Entry (g : Graph) (id : String) : Prop := id ∈ g.ids ∧ ∀ e ∈ g.edges, e.target ≠ id

/-- Some edge leads from one declared node to another. -/
def Link (g : Graph) (a b : String) : Prop := a ∈ g.ids ∧ b ∈ g.ids ∧ g.Step a b

/-- A node that links lead to from an entry. -/
def Reachable (g : Graph) (id : String) : Prop :=
  ∃ entry, g.Entry entry ∧ Relation.ReflTransGen g.Link entry id

theorem mem_entries : id ∈ g.entries ↔ g.Entry id := by
  simp only [entries, List.mem_filter, isTarget, Bool.not_eq_true', List.any_eq_false, beq_iff_eq,
    Entry, ne_eq]

theorem mem_children_of_mem (hid : id ∈ g.ids) : c ∈ g.children id ↔ g.Link id c := by
  rw [mem_children, Link]
  tauto

/-- A node that a visit may come to after the nodes `seen`. -/
def Offered (g : Graph) (seen : List String) (id : String) : Prop :=
  g.Entry id ∨ ∃ p ∈ seen, g.Link p id

theorem Offered.declared (h : g.Offered seen id) : id ∈ g.ids := by
  rcases h with h | ⟨p, -, h⟩
  · exact h.1
  · exact h.2.1

theorem Offered.append (h : g.Offered seen id) (more : List String) :
    g.Offered (seen ++ more) id := by
  rcases h with h | ⟨p, hp, h⟩
  · exact .inl h
  · exact .inr ⟨p, List.mem_append_left _ hp, h⟩

/-- Every node is offered by the nodes before it. -/
inductive Led (g : Graph) : List String → Prop
  | nil : Led g []
  | snoc {seen : List String} {id : String} : Led g seen → g.Offered seen id → Led g (seen ++ [id])

theorem Led.reachable (h : g.Led seen) : ∀ id ∈ seen, g.Reachable id := by
  induction h with
  | nil => exact fun id hid => absurd hid List.not_mem_nil
  | snoc _ hoffered ih =>
    intro id hid
    rcases List.mem_append.1 hid with hid | hid
    · exact ih id hid
    · rw [List.mem_singleton.1 hid]
      rcases hoffered with hentry | ⟨p, hp, hlink⟩
      · exact ⟨_, hentry, .refl⟩
      · obtain ⟨entry, hentry, hreach⟩ := ih p hp
        exact ⟨entry, hentry, hreach.tail hlink⟩

theorem Led.offered {before after : List String} (h : g.Led seen)
    (hseen : seen = before ++ id :: after) : g.Offered before id := by
  induction h generalizing after with
  | nil => simp at hseen
  | @snoc seen last _ hoffered ih =>
    rcases List.eq_nil_or_concat' after with rfl | ⟨front, last', rfl⟩
    · obtain ⟨rfl, hlast⟩ := List.append_inj' hseen rfl
      cases hlast
      exact hoffered
    · rw [← List.cons_append, ← List.append_assoc] at hseen
      exact ih (List.append_inj' hseen rfl).1

/-- A state of the loop: what was seen was offered, what is on the stack is offered, and nothing that
is offered is left out. -/
structure Explores (g : Graph) (s : List String × List String) : Prop where
  led : g.Led s.2
  offered : ∀ id ∈ s.1, g.Offered s.2 id
  complete : ∀ id, g.Offered s.2 id → id ∈ s.2 ∨ id ∈ s.1

theorem explores_entries (g : Graph) : g.Explores (g.entries, []) := by
  refine ⟨.nil, fun id hid => .inl (mem_entries.1 hid), fun id hid => ?_⟩
  rcases hid with hentry | ⟨p, hp, -⟩
  · exact .inr (mem_entries.2 hentry)
  · cases hp

theorem Explores.turn (h : g.Explores s) (ht : g.Turn s t) : g.Explores t := by
  obtain ⟨hled, hoffered, hcomplete⟩ := h
  cases ht with
  | @drop id stack seen hid =>
    refine ⟨hled, fun i hi => hoffered i (List.mem_cons_of_mem _ hi), fun i hi => ?_⟩
    rcases hcomplete i hi with hi | hi
    · exact .inl hi
    · rcases List.mem_cons.1 hi with rfl | hi
      · exact .inl hid
      · exact .inr hi
  | @enter id stack seen hid =>
    have hoffer := hoffered id List.mem_cons_self
    have hchild (c : String) : c ∈ g.children id ↔ g.Link id c := mem_children_of_mem hoffer.declared
    refine ⟨hled.snoc hoffer, fun i hi => ?_, fun i hi => ?_⟩
    · rcases List.mem_append.1 hi with hi | hi
      · exact .inr ⟨id, by simp, (hchild i).1 hi⟩
      · exact (hoffered i (List.mem_cons_of_mem _ hi)).append [id]
    · -- what the node adds to the offer is on the stack now
      have hbefore : g.Offered seen i ∨ g.Link id i := by
        rcases hi with hentry | ⟨p, hp, hlink⟩
        · exact .inl (.inl hentry)
        · rcases List.mem_append.1 hp with hp | hp
          · exact .inl (.inr ⟨p, hp, hlink⟩)
          · rw [List.mem_singleton.1 hp] at hlink
            exact .inr hlink
      simp only [List.mem_append, List.mem_singleton]
      rcases hbefore with hi | hlink
      · rcases hcomplete i hi with hi | hi
        · exact .inl (.inl hi)
        · rcases List.mem_cons.1 hi with rfl | hi
          · exact .inl (.inr rfl)
          · exact .inr (.inr hi)
      · exact .inr (.inl ((hchild i).2 hlink))

theorem Explores.turns (h : g.Explores s) (ht : Relation.ReflTransGen g.Turn s t) :
    g.Explores t := by
  induction ht with
  | refl => exact h
  | tail _ hturn ih => exact ih.turn hturn

theorem explores_preorderIds (g : Graph) : g.Explores ([], g.preorderIds) :=
  g.explores_entries.turns (visits_iff_turns.1 g.visits_preorderIds)

theorem mem_preorderIds : id ∈ g.preorderIds ↔ g.Reachable id := by
  have h := g.explores_preorderIds
  have hmem {i : String} (hi : g.Offered g.preorderIds i) : i ∈ g.preorderIds :=
    (h.complete i hi).resolve_right List.not_mem_nil
  constructor
  · exact h.led.reachable id
  · rintro ⟨entry, hentry, hreach⟩
    induction hreach with
    | refl => exact hmem (.inl hentry)
    | tail _ hlink ih => exact hmem (.inr ⟨_, ih, hlink⟩)

theorem mem_preorder_iff (hg : g.Distinct) {n : Node} (hn : n ∈ g.nodes) :
    n ∈ g.preorder ↔ n.id ∈ g.preorderIds := by
  constructor
  · intro h
    rw [← map_id_preorder]
    exact List.mem_map_of_mem h
  · intro h
    rw [← map_id_preorder] at h
    obtain ⟨m, hm, hid⟩ := List.mem_map.1 h
    rwa [← List.inj_on_of_nodup_map hg.nodup (mem_nodes_of_mem_preorder hm) hn hid]

/-- A depth-first plan holds the declared nodes that links lead to from an entry, each of them once.
A node of it that is no entry stands behind a node that an edge leads from to it. -/
theorem plan_preorder_reachable (g : Graph) (hg : g.Distinct) :
    ∃ order, g.plan .preorder = .ok order
      ∧ (∀ n ∈ order, n ∈ g.nodes)
      ∧ (∀ n ∈ g.nodes, n ∈ order ↔ ∃ entry, g.Entry entry
          ∧ Relation.ReflTransGen g.Link entry n.id)
      ∧ (∀ n ∈ order, (order.map (·.id)).count n.id = 1)
      ∧ ∀ before n after, order = before ++ n :: after → ¬ g.Entry n.id →
          ∃ p ∈ before, g.Step p.id n.id := by
  refine ⟨g.preorder, plan_preorder hg, fun n => mem_nodes_of_mem_preorder, fun n hn => ?_,
    fun n hn => ?_, fun before n after horder hentry => ?_⟩
  · rw [mem_preorder_iff hg hn, mem_preorderIds]
    rfl
  · exact List.count_eq_one_of_mem g.preorder_ids_nodup (List.mem_map_of_mem hn)
  · have hids : g.preorderIds = before.map (·.id) ++ n.id :: after.map (·.id) := by
      rw [← map_id_preorder, horder, List.map_append, List.map_cons]
    obtain ⟨p, hp, hlink⟩ := (g.explores_preorderIds.led.offered hids).resolve_left hentry
    obtain ⟨m, hm, rfl⟩ := List.mem_map.1 hp
    exact ⟨m, hm, hlink.2.2⟩

/-- In `tangle` the nodes of the cycle that cannot be entered are the ones left out. -/
theorem plan_preorder_reachable_tangle : ∃ order, tangle.plan .preorder = .ok order
    ∧ (∀ n ∈ tangle.nodes, n ∉ order ↔ n.id = "lost" ∨ n.id = "stray")
    ∧ tangle.Reachable "deploy" ∧ ¬ tangle.Reachable "stray" := by
  obtain ⟨order, hplan, -, hmem, -⟩ := plan_preorder_reachable tangle ⟨by decide, by decide⟩
  have horder : order = ["start", "build", "deploy", "lint"].filterMap tangle.node? := by
    rw [show tangle.plan .preorder = .ok (["start", "build", "deploy", "lint"].filterMap
      tangle.node?) by decide] at hplan
    exact (Except.ok.inj hplan).symm
  refine ⟨order, hplan, ?_, ?_, ?_⟩
  · rw [horder]
    decide
  · exact (hmem ⟨"deploy", "deploy", []⟩ (by decide)).1 (by rw [horder]; decide)
  · exact fun h => absurd ((hmem ⟨"stray", "test_jest", []⟩ (by decide)).2 h) (by rw [horder]; decide)

end BuildPipeline.Graph
