import BuildPipeline.Proofs.MergeLaws
import BuildPipeline.Proofs.Yaml.ContentLaws
import BuildPipeline.Yaml.Reader

/-!
Mappings that are read from YAML. However a key is spelled, and whether it is written in a mapping
or merged into it, the mapping has it once.
-/

namespace BuildPipeline.Yaml

open Value (SingleKeyed)

namespace Content

theorem singleKeyed_dictOf {es : List (Content × Content)}
    (h : ∀ e ∈ es, SingleKeyed e.2.value) : SingleKeyed (.dict (dictOf es)) := by
  suffices hkeys : Table.Distinct (dictOf es) ∧ ∀ e ∈ dictOf es, SingleKeyed e.2 from
    .dict _ hkeys.1 hkeys.2
  refine List.foldlRecOn (motive := fun d : Dict => d.Distinct ∧ ∀ e ∈ d, SingleKeyed e.2)
    es _ ⟨.nil, nofun⟩ fun d ⟨hd, hvs⟩ e he => ?_
  split
  · rename_i s _
    refine ⟨hd.insert s e.2.value, fun f hf => ?_⟩
    rcases Table.mem_insert_values hf with hf | hv
    · exact hvs f hf
    · exact hv ▸ h e he
  · exact ⟨hd, hvs⟩

theorem singleKeyed_ofScalar (r : Except ReadError Scalar) : SingleKeyed (ofScalar r).value := by
  cases r <;> exact .leaf _ nofun

end Content

namespace Node

theorem singleKeyed_emptyUnder {t : Tag} {v : Value} (h : emptyUnder t = some v) :
    SingleKeyed v := by
  cases t <;> cases h <;> first
    | exact .dict [] .nil nofun
    | exact .leaf _ nofun

theorem singleKeyed_asScalar (t : Tag) (text : Option (List Char)) :
    SingleKeyed (asScalar t text).value := by
  rw [asScalar.eq_def]
  split
  · exact .leaf _ nofun
  · split
    · exact .leaf _ nofun
    · exact Content.singleKeyed_ofScalar _

theorem entryContents_eq (es : List (Node × Node)) :
    entryContents es = es.map fun e => (content e.1, content e.2) := by
  induction es with
  | nil => rfl
  | cons e es ih => rw [entryContents, ih, List.map_cons]

theorem singleKeyed_content : ∀ n : Node, SingleKeyed n.content.value
  | .scalar t cs => by
    rw [content]
    split
    · exact singleKeyed_emptyUnder ‹_›
    · exact Content.singleKeyed_ofScalar _
  | .seq t ns => by
    rw [content.eq_def]
    dsimp only
    split
    · exact .leaf _ nofun
    · exact .leaf _ nofun
    · exact .leaf _ nofun
    · split
      · exact singleKeyed_emptyUnder ‹_›
      · exact singleKeyed_asScalar _ _
  | .map t es => by
    have hes (e) (he : e ∈ es) : SingleKeyed e.2.content.value := singleKeyed_content e.2
    rw [content.eq_def]
    dsimp only
    split
    · rw [entryContents_eq]
      exact Content.singleKeyed_dictOf (List.forall_mem_map.2 hes)
    · exact .leaf _ nofun
    · split
      · exact singleKeyed_emptyUnder ‹_›
      · exact singleKeyed_asScalar _ _
  | .loop t _ => .leaf _ nofun
  | .broken t => by
    rw [content]
    cases h : emptyUnder t with
    | none => exact .leaf _ nofun
    | some v => exact singleKeyed_emptyUnder h
termination_by n => sizeOf n
decreasing_by
  have hlt := List.sizeOf_lt_of_mem he
  obtain ⟨k, v⟩ := e
  simp only [Prod.mk.sizeOf_spec, Node.map.sizeOf_spec] at hlt ⊢
  omega

end Node

/-- What is read has each key once, in every mapping that is reached through keys. -/
theorem singleKeyed_of_readChars {cs : List Char} {v : Value} (h : readChars cs = .ok v) :
    SingleKeyed v := by
  rw [readChars] at h
  split at h
  · obtain ⟨n?, -, h⟩ := bind_eq_ok.1 h
    cases n? with
    | none =>
      cases h
      exact .leaf _ nofun
    | some n =>
      obtain ⟨-, rfl⟩ := Node.value_eq_ok.1 h
      exact Node.singleKeyed_content _
  · cases h

end BuildPipeline.Yaml
