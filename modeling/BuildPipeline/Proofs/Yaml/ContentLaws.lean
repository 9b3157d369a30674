import BuildPipeline.Yaml.Content

/-! When the content of a node has no error on any level. -/

namespace BuildPipeline.Yaml

namespace Content

variable {c : Content} {cs : List Content} {es : List (Content × Content)} {v : Value}

/-- No error on any level. -/
def Clean (c : Content) : Prop := c.now = none ∧ ∀ e ∈ c.later, e = none

theorem clean_scalar (s : Scalar) : Clean (.ofScalar (.ok s)) := ⟨rfl, by simp [ofScalar]⟩

theorem not_clean_failed (e : ReadError) : ¬Clean (.failed e) := fun h => by cases h.1

theorem joinLevels_none (as bs : List (Option ReadError)) :
    (∀ e ∈ joinLevels as bs, e = none) ↔ (∀ e ∈ as, e = none) ∧ ∀ e ∈ bs, e = none := by
  induction as generalizing bs with
  | nil => simp [joinLevels]
  | cons a as ih =>
    cases bs with
    | nil => simp [joinLevels]
    | cons b bs =>
      simp only [joinLevels, List.forall_mem_cons, ih, Option.or_eq_none_iff]
      exact and_and_and_comm

theorem levels_none (cs : List Content) :
    (∀ e ∈ levels cs, e = none) ↔ ∀ c ∈ cs, ∀ e ∈ c.later, e = none := by
  have hfold (ls : List (Option ReadError)) :
      (∀ e ∈ cs.foldl (fun ls c => joinLevels ls c.later) ls, e = none)
        ↔ (∀ e ∈ ls, e = none) ∧ ∀ c ∈ cs, ∀ e ∈ c.later, e = none := by
    induction cs generalizing ls with
    | nil => simp
    | cons c cs ih =>
      rw [List.foldl_cons, ih, joinLevels_none, List.forall_mem_cons, and_assoc]
  rw [levels, hfold []]
  simp

theorem clean_ofItems : Clean (ofItems v cs) ↔ ∀ c ∈ cs, Clean c := by
  simp only [Clean, ofItems, List.forall_mem_cons, levels_none, firstError,
    List.findSome?_eq_none_iff, true_and]
  exact ⟨fun h c hc => ⟨h.1 c hc, h.2 c hc⟩,
    fun h => ⟨fun c hc => (h c hc).1, fun c hc => (h c hc).2⟩⟩

theorem entryError_none (e : Content × Content) :
    entryError e = none ↔ e.1.now = none ∧ e.1.isKey ∧ e.2.now = none := by
  by_cases h : e.1.isKey <;> simp [entryError, h]

theorem clean_ofEntries {f : Dict → Value} :
    Clean (ofEntries f es) ↔ ∀ e ∈ es, Clean e.1 ∧ e.1.isKey ∧ Clean e.2 := by
  simp only [Clean, ofEntries, List.forall_mem_cons, levels_none, List.findSome?_eq_none_iff,
    entryError_none, entryChildren, List.forall_mem_flatMap, List.not_mem_nil, true_and]
  refine ⟨fun h e he => ?_, fun h => ⟨fun e he => ?_, fun e he => ?_⟩⟩
  · obtain ⟨hnow, hlater⟩ := h
    obtain ⟨hkey, his, hvalue⟩ := hnow e he
    obtain ⟨hk, hv, -⟩ := hlater e he
    exact ⟨⟨hkey, hk⟩, his, hvalue, hv⟩
  · obtain ⟨⟨hkey, -⟩, his, hvalue, -⟩ := h e he
    exact ⟨hkey, his, hvalue⟩
  · obtain ⟨⟨-, hk⟩, -, -, hv⟩ := h e he
    exact ⟨hk, hv, by simp⟩

theorem dictOf_map {α : Type} {as : List α} {k v : α → Content} {f : α → Scalar}
    (h : ∀ a ∈ as, (k a).value = .scalar (f a)) :
    dictOf (as.map fun a => (k a, v a)) = Table.ofList (as.map fun a => (f a, (v a).value)) := by
  rw [dictOf, Table.ofList, Table.union, List.foldl_map, List.foldl_map]
  generalize ([] : Dict) = d
  induction as generalizing d with
  | nil => rfl
  | cons a as ih =>
    obtain ⟨ha, has⟩ := List.forall_mem_cons.1 h
    rw [List.foldl_cons, List.foldl_cons, ha]
    exact ih has _

end Content

/-- A node that stands for a value, without an error. -/
def Node.Means (n : Node) (v : Value) : Prop := n.content.Clean ∧ n.content.value = v

theorem Node.value_eq_ok {n : Node} {v : Value} : n.value = .ok v ↔ n.resolveMerges.Means v := by
  have hclean : (n.resolveMerges.content.now :: n.resolveMerges.content.later).findSome? id = none
      ↔ n.resolveMerges.content.Clean := by
    rw [List.findSome?_eq_none_iff, List.forall_mem_cons]
    exact Iff.rfl
  simp only [Node.value, Node.Means, ← hclean]
  split
  · rename_i e he
    simp [he]
  · rename_i he
    simp [he]

end BuildPipeline.Yaml
