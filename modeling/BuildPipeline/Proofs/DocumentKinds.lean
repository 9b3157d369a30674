import BuildPipeline.Proofs.DocumentLaws

/-!
Kinds of values, as predicates. A mapping is over a kind if its keys are distinct texts and its
values are of that kind.
-/

namespace BuildPipeline

variable {Q : Value → Prop} {d : Dict} {t : Table String Value} {name : String} {v : Value}

/-- A mapping from distinct texts to values of a kind. -/
def Dict.Over (Q : Value → Prop) (d : Dict) : Prop :=
  ∃ t : Table String Value, d = Dict.of t ∧ t.Distinct ∧ ∀ e ∈ t, Q e.2

theorem Dict.over_of (h : t.Distinct) (ht : ∀ e ∈ t, Q e.2) : (Dict.of t).Over Q := ⟨t, rfl, h, ht⟩

theorem Dict.over_nil : Dict.Over Q [] := over_of (t := []) .nil (by simp)

theorem Dict.Over.set (h : d.Over Q) (name : String) (hv : Q v) : (Dict.set d name v).Over Q := by
  obtain ⟨t, rfl, hdistinct, ht⟩ := h
  rw [set_of]
  refine over_of (hdistinct.insert name v) fun e he => ?_
  rcases Table.mem_insert he with he | rfl
  · exact ht e he
  · exact hv

theorem Dict.Over.field (h : d.Over Q) (hv : Dict.field d name = some v) : Q v := by
  obtain ⟨t, rfl, -, ht⟩ := h
  rw [Dict.field, Value.get?_of] at hv
  exact ht (name, v) (Table.mem_of_get?_eq hv)

/-- A kind of values that has all that a record writes of its own accord. -/
structure Admits (Q : Value → Prop) : Prop where
  null : Q .null
  text : ∀ s, Q (.str s)
  int : ∀ n, Q (.int n)
  texts : ∀ ss, Q (.ofStrings ss)
  dict : ∀ d, Dict.Over Q d → Q (.dict d)
  field : ∀ d name v, Q (.dict d) → Dict.field d name = some v → Q v

theorem admits_true : Admits fun _ => True where
  null := trivial
  text _ := trivial
  int _ := trivial
  texts _ := trivial
  dict _ _ := trivial
  field _ _ _ _ _ := trivial

end BuildPipeline
