import BuildPipeline.Proofs.PlanLaws

/-! Depth-first plans.  The loop over a stack comes to an end from every state, and what it has seen
by then is what recursive visits of the entries see, in the same order. -/

namespace BuildPipeline

theorem firsts_append_singleton {α : Type} [BEq α] (as : List α) (a : α) :
    firsts (as ++ [a]) = if (firsts as).contains a then firsts as else firsts as ++ [a] := by
  rw [firsts, List.foldl_append]
  rfl

theorem length_firsts_le {α : Type} [BEq α] (as : List α) : (firsts as).length ≤ as.length := by
  induction as using List.reverseRecOn with
  | nil => exact le_rfl
  | append_singleton as a ih =>
    rw [firsts_append_singleton, List.length_append, List.length_singleton]
    split
    · exact Nat.le_succ_of_le ih
    · simpa using ih

theorem nodup_firsts {α : Type} [BEq α] [LawfulBEq α] (as : List α) : (firsts as).Nodup := by
  induction as using List.reverseRecOn with
  | nil => exact List.nodup_nil
  | append_singleton as a ih =>
    rw [firsts_append_singleton]
    split
    case isTrue => exact ih
    case isFalse h =>
      rw [← List.concat_eq_append]
      exact ih.concat (mt List.contains_iff_mem.2 h)

theorem contains_firsts {α : Type} [BEq α] [EquivBEq α] (as : List α) (a : α) :
    (firsts as).contains a = as.contains a := by
  induction as using List.reverseRecOn with
  | nil => rfl
  | append_singleton as b ih =>
    rw [firsts_append_singleton]
    split
    case isTrue hb =>
      have hab : (a == b) = true → (firsts as).contains a := by
        rw [List.contains_iff_exists_mem_beq] at hb ⊢
        exact fun hab => hb.imp fun c hc => ⟨hc.1, BEq.trans hab hc.2⟩
      cases h : a == b <;> simp_all
    case isFalse => simp [ih]

namespace Graph

variable {g : Graph} {id c : String} {ids stack seen seen' : List String}

section Children

theorem mem_children : c ∈ g.children id ↔ g.Step id c ∧ c ∈ g.ids := by
  simp only [children, mem_firsts, List.mem_map, List.mem_filter, Bool.and_eq_true, beq_iff_eq,
    declares, List.contains_iff_mem, Step]
  constructor
  · rintro ⟨e, ⟨he, hs, hc⟩, rfl⟩
    exact ⟨⟨e, he, hs, rfl⟩, hc⟩
  · rintro ⟨⟨e, he, hs, rfl⟩, hc⟩
    exact ⟨e, ⟨he, hs, hc⟩, rfl⟩

/-- The place of the first edge from one node to another. -/
def firstEdge (g : Graph) (a b : String) : Nat :=
  g.edges.findIdx fun e => e.source == a && e.target == b

/-- Children come in the order of the first edges to them. -/
theorem pairwise_children (g : Graph) (id : String) :
    (g.children id).Pairwise fun b c => g.firstEdge id b < g.firstEdge id c := by
  obtain ⟨nodes, edges⟩ := g
  induction edges using List.reverseRecOn with
  | nil => exact List.Pairwise.nil
  | append_singleton es e ih =>
    let old : Graph := ⟨nodes, es⟩
    let new : Graph := ⟨nodes, es ++ [e]⟩
    have hlt {b : String} (hb : b ∈ old.children id) : old.firstEdge id b < es.length := by
      obtain ⟨⟨e', he', hs, ht⟩, -⟩ := mem_children.1 hb
      exact List.findIdx_lt_length_of_exists ⟨e', he', by simp [hs, ht]⟩
    have hsame {b : String} (hb : b ∈ old.children id) :
        new.firstEdge id b = old.firstEdge id b := by
      rw [firstEdge, List.findIdx_append]
      exact if_pos (hlt hb)
    have hold : (old.children id).Pairwise fun b c => new.firstEdge id b < new.firstEdge id c :=
      ih.imp_of_mem fun hb hc h => by rwa [hsame hb, hsame hc]
    by_cases he : (e.source == id && old.declares e.target) = true
    · have hchildren : new.children id = firsts ((((es.filter fun e => e.source == id &&
          old.declares e.target)).map (·.target)) ++ [e.target]) := by
        simp only [children, new, List.filter_append, List.map_append]
        rw [List.filter_cons_of_pos (by exact he)]
        rfl
      rw [hchildren, firsts_append_singleton]
      split
      case isTrue => exact hold
      case isFalse hc =>
        refine List.pairwise_append.2 ⟨hold, List.pairwise_singleton _ _, fun b hb c hc' => ?_⟩
        rw [List.mem_singleton.1 hc', hsame hb]
        refine (hlt hb).trans_le ?_
        -- the edge is the first one to its target
        rw [firstEdge, List.findIdx_append]
        split
        case isTrue hfound =>
          obtain ⟨e', he', hp⟩ := List.findIdx_lt_length.1 hfound
          simp only [Bool.and_eq_true, beq_iff_eq] at he hp
          refine absurd (List.contains_iff_mem.2 (mem_children.2 ⟨⟨e', he', hp⟩, ?_⟩)) hc
          exact List.contains_iff_mem.1 he.2
        case isFalse => exact Nat.le_add_left _ _
    · have hchildren : new.children id = old.children id := by
        simp only [children, new, List.filter_append]
        rw [List.filter_cons_of_neg (by exact he)]
        simp [old, declares, Graph.ids]
      rw [hchildren]
      exact hold

end Children

section Loop

/-- One turn of the loop: the nearest node is dropped if it was seen, and otherwise it is seen and
its children come before the rest of the stack. -/
inductive Turn (g : Graph) : List String × List String → List String × List String → Prop
  | drop {id : String} {stack seen : List String} : id ∈ seen → Turn g (id :: stack, seen) (stack, seen)
  | enter {id : String} {stack seen : List String} : id ∉ seen →
      Turn g (id :: stack, seen) (g.children id ++ stack, seen ++ [id])

/-- How many turns are left at most: what is on the stack, and the edges that may get there. -/
def effort (g : Graph) (s : List String × List String) : Nat :=
  s.1.length + g.edges.countP fun e => !s.2.contains e.source

theorem length_children_add (hid : id ∉ seen) :
    (g.children id).length + g.edges.countP (fun e => !(seen ++ [id]).contains e.source)
      ≤ g.edges.countP fun e => !seen.contains e.source := by
  have hchildren : (g.children id).length ≤ g.edges.countP (·.source == id) := by
    refine (length_firsts_le _).trans ?_
    rw [List.length_map, ← List.countP_eq_length_filter]
    exact List.countP_mono_left fun e _ he => (Bool.and_eq_true_iff.1 he).1
  have hsplit (es : List Edge) : es.countP (·.source == id)
      + es.countP (fun e => !(seen ++ [id]).contains e.source)
      = es.countP fun e => !seen.contains e.source := by
    induction es with
    | nil => rfl
    | cons e es ih =>
      simp only [List.countP_cons, ← ih]
      by_cases he : e.source = id
      · simp [he, hid]
        omega
      · simp [he]
        omega
  calc
    _ ≤ _ := Nat.add_le_add_right hchildren _
    _ = _ := hsplit g.edges

theorem Turn.effort_lt {s t : List String × List String} (h : g.Turn s t) :
    g.effort t < g.effort s := by
  cases h with
  | drop => simp [effort]
  | enter hid =>
    have := length_children_add (g := g) hid
    simp only [effort, List.length_append, List.length_cons]
    omega

theorem wellFounded_turn (g : Graph) : WellFounded (Function.swap g.Turn) :=
  Subrelation.wf (fun h => h.effort_lt) (measure g.effort).wf

theorem turn_rightUnique (g : Graph) : Relator.RightUnique g.Turn := by
  intro s t u ht hu
  cases ht with
  | drop hid =>
    cases hu with
    | drop => rfl
    | enter hnew => exact absurd hid hnew
  | enter hnew =>
    cases hu with
    | drop hid => exact absurd hid hnew
    | enter => rfl

/-- Turns lead to one end at most. -/
theorem end_unique {s : List String × List String} (h : Relation.ReflTransGen g.Turn s ([], seen))
    (h' : Relation.ReflTransGen g.Turn s ([], seen')) : seen' = seen := by
  have hend (seen : List String) : ∀ t, ¬ g.Turn ([], seen) t := by
    intro t ht
    cases ht
  rcases Relation.ReflTransGen.total_of_right_unique g.turn_rightUnique h h' with h | h
  · exact congrArg Prod.snd ((Relation.reflTransGen_iff_eq (hend seen)).1 h)
  · exact (congrArg Prod.snd ((Relation.reflTransGen_iff_eq (hend seen')).1 h)).symm

/-- A walk with enough fuel takes every turn of the loop. -/
theorem walk_turns {fuel : Nat} (h : g.effort (stack, seen) ≤ fuel) :
    Relation.ReflTransGen g.Turn (stack, seen) ([], g.walk fuel stack seen) := by
  induction fuel generalizing stack seen with
  | zero =>
    have hstack : stack = [] := List.eq_nil_of_length_eq_zero (by simp only [effort] at h; omega)
    rw [hstack]
    exact .refl
  | succ fuel ih =>
    cases stack with
    | nil => exact .refl
    | cons id stack =>
      rw [walk]
      split
      case isTrue hid =>
        have hturn : g.Turn (id :: stack, seen) (stack, seen) := .drop (List.contains_iff_mem.1 hid)
        exact (ih (Nat.le_of_lt_succ (hturn.effort_lt.trans_le h))).head hturn
      case isFalse hid =>
        have hturn : g.Turn (id :: stack, seen) (g.children id ++ stack, seen ++ [id]) :=
          .enter fun hmem => hid (List.contains_iff_mem.2 hmem)
        exact (ih (Nat.le_of_lt_succ (hturn.effort_lt.trans_le h))).head hturn

theorem walk_entry_turns (g : Graph) (id : String) (seen : List String) :
    Relation.ReflTransGen g.Turn ([id], seen) ([], g.walk g.walkFuel [id] seen) := by
  apply walk_turns
  have hedges : g.edges.countP (fun e => !seen.contains e.source) ≤ g.edges.length :=
    List.countP_le_length
  simp only [effort, walkFuel, List.length_singleton]
  omega

end Loop

section Recursion

/-- Recursive visits of some nodes, one after another: a node that was seen is left alone; any other
is seen, and its children are visited before the next node is. -/
inductive Visits (g : Graph) : List String → List String → List String → Prop
  | done {seen : List String} : Visits g [] seen seen
  | known {id : String} {ids seen seen' : List String} : id ∈ seen → Visits g ids seen seen' →
      Visits g (id :: ids) seen seen'
  | fresh {id : String} {ids seen mid seen' : List String} : id ∉ seen →
      Visits g (g.children id) (seen ++ [id]) mid → Visits g ids mid seen' →
      Visits g (id :: ids) seen seen'

/-- The loop does to the nodes in front of a stack what recursive visits do. -/
theorem Visits.turns (h : g.Visits ids seen seen') (stack : List String) :
    Relation.ReflTransGen g.Turn (ids ++ stack, seen) (stack, seen') := by
  induction h generalizing stack with
  | done => exact .refl
  | known hid _ ih => exact (ih stack).head (.drop hid)
  | @fresh id ids seen mid seen' hid _ _ ihchildren ihrest =>
    calc
      g.Turn (id :: (ids ++ stack), seen) (g.children id ++ (ids ++ stack), seen ++ [id]) :=
        .enter hid
      Relation.ReflTransGen g.Turn _ (ids ++ stack, mid) := ihchildren _
      Relation.ReflTransGen g.Turn _ (stack, seen') := ihrest stack

theorem Visits.subset (h : g.Visits ids seen seen') : seen ⊆ seen' := by
  induction h with
  | done => exact List.Subset.refl _
  | known _ _ ih => exact ih
  | fresh _ _ _ ihchildren ihrest =>
    exact List.Subset.trans (List.subset_append_left _ _) (List.Subset.trans ihchildren ihrest)

theorem Visits.declared (h : g.Visits ids seen seen') (hids : ids ⊆ g.ids) (hseen : seen ⊆ g.ids) :
    seen' ⊆ g.ids := by
  induction h with
  | done => exact hseen
  | known _ _ ih => exact ih (List.subset_of_cons_subset hids) hseen
  | fresh _ _ _ ihchildren ihrest =>
    obtain ⟨hid, hids⟩ := List.cons_subset.1 hids
    refine ihrest hids (ihchildren (fun c hc => (mem_children.1 hc).2) ?_)
    exact List.append_subset.2 ⟨hseen, List.cons_subset.2 ⟨hid, List.nil_subset _⟩⟩

theorem Visits.cons {mid : List String} (h : g.Visits [id] seen mid)
    (hrest : g.Visits ids mid seen') : g.Visits (id :: ids) seen seen' := by
  cases h with
  | known hid hdone =>
    cases hdone
    exact .known hid hrest
  | fresh hid hchildren hdone =>
    cases hdone
    exact .fresh hid hchildren hrest

theorem effort_le {ids' : List String} (hids : ids.length ≤ ids'.length) (h : seen' ⊆ seen) :
    g.effort (ids, seen) ≤ g.effort (ids', seen') := by
  refine Nat.add_le_add hids (List.countP_mono_left fun e _ he => ?_)
  simp only [Bool.not_eq_true', List.contains_eq_mem, decide_eq_false_iff_not] at he ⊢
  exact fun hmem => he (h hmem)

/-- Recursive visits come to an end. -/
theorem exists_visits (g : Graph) (ids seen : List String) : ∃ seen', g.Visits ids seen seen' := by
  induction hn : g.effort (ids, seen) using Nat.strongRecOn generalizing ids seen with
  | ind n ih =>
    subst hn
    cases ids with
    | nil => exact ⟨seen, .done⟩
    | cons id ids =>
      by_cases hid : id ∈ seen
      · have hturn : g.Turn (id :: ids, seen) (ids, seen) := .drop hid
        obtain ⟨seen', h⟩ := ih _ hturn.effort_lt ids seen rfl
        exact ⟨seen', .known hid h⟩
      · have hturn : g.Turn (id :: ids, seen) (g.children id ++ ids, seen ++ [id]) := .enter hid
        have hchildren : g.effort (g.children id, seen ++ [id])
            ≤ g.effort (g.children id ++ ids, seen ++ [id]) :=
          effort_le (by simp) (List.Subset.refl _)
        obtain ⟨mid, hmid⟩ := ih _ (hchildren.trans_lt hturn.effort_lt) _ _ rfl
        have hrest : g.effort (ids, mid) ≤ g.effort (g.children id ++ ids, seen ++ [id]) :=
          effort_le (by simp) hmid.subset
        obtain ⟨seen', h⟩ := ih _ (hrest.trans_lt hturn.effort_lt) _ _ rfl
        exact ⟨seen', .fresh hid hmid h⟩

/-- What the loop comes to is what recursive visits come to. -/
theorem visits_iff_turns :
    g.Visits ids seen seen' ↔ Relation.ReflTransGen g.Turn (ids, seen) ([], seen') := by
  constructor
  · intro h
    simpa using h.turns []
  · intro h
    obtain ⟨seen'', hv⟩ := g.exists_visits ids seen
    have hturns : Relation.ReflTransGen g.Turn (ids, seen) ([], seen'') := by simpa using hv.turns []
    rwa [end_unique hturns h]

end Recursion

section Plan

theorem visits_foldl_walk (g : Graph) (ids seen : List String) :
    g.Visits ids seen (ids.foldl (fun seen id => g.walk g.walkFuel [id] seen) seen) := by
  induction ids generalizing seen with
  | nil => exact .done
  | cons id ids ih => exact (visits_iff_turns.2 (g.walk_entry_turns id seen)).cons (ih _)

theorem visits_preorderIds (g : Graph) : g.Visits g.entries [] g.preorderIds :=
  g.visits_foldl_walk g.entries []

theorem preorderIds_subset (g : Graph) : g.preorderIds ⊆ g.ids :=
  g.visits_preorderIds.declared (List.filter_subset_self _) (List.nil_subset _)

theorem exists_node? (h : id ∈ g.ids) : ∃ n ∈ g.nodes, g.node? id = some n := by
  obtain ⟨m, hm, hid⟩ := List.mem_map.1 h
  cases hn : g.node? id with
  | none => exact absurd hid (by simpa using List.find?_eq_none.1 hn m hm)
  | some n => exact ⟨n, List.mem_of_find?_eq_some hn, rfl⟩

theorem map_id_preorder (g : Graph) : g.preorder.map (·.id) = g.preorderIds := by
  have hnodes (ids : List String) (h : ids ⊆ g.ids) : (ids.filterMap g.node?).map (·.id) = ids := by
    induction ids with
    | nil => rfl
    | cons id ids ih =>
      obtain ⟨hid, hids⟩ := List.cons_subset.1 h
      obtain ⟨n, -, hn⟩ := exists_node? hid
      rw [List.filterMap_cons_some hn, List.map_cons, ih hids, node?_id hn]
  exact hnodes g.preorderIds g.preorderIds_subset

theorem mem_nodes_of_mem_preorder {n : Node} (h : n ∈ g.preorder) : n ∈ g.nodes := by
  obtain ⟨id, -, hn⟩ := List.mem_filterMap.1 h
  exact List.mem_of_find?_eq_some hn

theorem plan_preorder (hg : g.Distinct) : g.plan .preorder = .ok g.preorder := by
  simp only [plan, checkIds_eq_ok.2 hg]
  rfl

end Plan

/-- The loop over a stack has no endless run, and it comes to what the plan takes from it.  The plan
is the one that recursive visits of the entries make, each node before its children and these in the
order of the first edges to them. -/
theorem plan_preorder_iff_visits (g : Graph) (hg : g.Distinct) :
    WellFounded (Function.swap g.Turn)
      ∧ (∀ id seen, Relation.ReflTransGen g.Turn ([id], seen) ([], g.walk g.walkFuel [id] seen))
      ∧ (∀ id, (∀ c, c ∈ g.children id ↔ g.Step id c ∧ c ∈ g.ids)
          ∧ (g.children id).Pairwise fun b c => g.firstEdge id b < g.firstEdge id c)
      ∧ ∃ order, g.plan .preorder = .ok order ∧ (∀ n ∈ order, n ∈ g.nodes)
          ∧ ∀ ids, g.Visits g.entries [] ids ↔ ids = order.map (·.id) := by
  refine ⟨g.wellFounded_turn, g.walk_entry_turns, fun id => ⟨fun c => mem_children,
    g.pairwise_children id⟩, g.preorder, plan_preorder hg, fun n => mem_nodes_of_mem_preorder,
    fun ids => ?_⟩
  have hplan := visits_iff_turns.1 g.visits_preorderIds
  rw [map_id_preorder, visits_iff_turns]
  constructor
  · exact fun h => end_unique hplan h
  · rintro rfl
    exact hplan

/-- A join, two cycles of which one can be entered, a loop, a repeated edge and edges with an end that
is not declared. -/
def tangle : Graph where
  nodes := [⟨"lost", "test_jest", []⟩, ⟨"start", "start", []⟩, ⟨"deploy", "deploy", []⟩,
    ⟨"build", "build_vite", []⟩, ⟨"lint", "test_mocha", []⟩, ⟨"stray", "test_jest", []⟩]
  edges := [⟨"1", "start", "build"⟩, ⟨"2", "start", "lint"⟩, ⟨"3", "build", "ghost"⟩,
    ⟨"4", "build", "deploy"⟩, ⟨"5", "deploy", "build"⟩, ⟨"6", "start", "build"⟩,
    ⟨"7", "lint", "deploy"⟩, ⟨"8", "lost", "stray"⟩, ⟨"9", "stray", "lost"⟩,
    ⟨"10", "lint", "lint"⟩, ⟨"11", "ghost", "lint"⟩]

theorem plan_preorder_tangle : ∃ order, tangle.plan .preorder = .ok order
    ∧ order.map (·.id) = ["start", "build", "deploy", "lint"]
    ∧ tangle.Visits ["start"] [] ["start", "build", "deploy", "lint"] := by
  obtain ⟨-, -, -, order, hplan, -, hvisits⟩ := plan_preorder_iff_visits tangle
    ⟨by decide, by decide⟩
  have hids : order.map (·.id) = ["start", "build", "deploy", "lint"] := by
    rw [show tangle.plan .preorder = .ok (["start", "build", "deploy", "lint"].filterMap
      tangle.node?) by decide] at hplan
    cases hplan
    rfl
  exact ⟨order, hplan, hids, (hvisits _).2 hids.symm⟩

end Graph

end BuildPipeline
