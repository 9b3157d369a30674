import BuildPipeline.Proofs.SpecDocuments
import BuildPipeline.Proofs.Yaml.WrittenGlyphs

/-!
Which build specifications come back from their text. Texts that single quotes do not keep, keys
that take too many characters and whole numbers with too many digits are all that can get lost.
-/

namespace BuildPipeline

namespace Yaml

variable {d : Dict}

/-- A portable document is read as itself exactly if its keys are short enough and everything in it
is legible. -/
theorem read_write_iff (hd : d ≠ []) (h : Portable (.dict d)) :
    read (write d) = .ok (.dict d) ↔ ShortKeysEntries d ∧ LegibleEntries d := by
  by_cases hs : ShortKeysEntries d
  · rw [read_write_of_node (read?_write hd hs), value_writtenNode h]
    exact (and_iff_right hs).symm
  · refine iff_of_false (fun hread => ?_) fun hlegible => hs hlegible.1
    obtain ⟨n, hn⟩ := exists_node_of_read_write hread
    exact read?_write_fails hd hs n hn

end Yaml

namespace BuildSpec

/-- A specification whose text keeps everything that its document shows. -/
def Legible (s : BuildSpec) : Prop :=
  Yaml.ShortKeysEntries s.document ∧ Yaml.LegibleEntries s.document

instance (s : BuildSpec) : Decidable s.Legible :=
  inferInstanceAs (Decidable (_ ∧ _))

/-- The text of a specification is read as its document exactly if the specification is legible,
and so it is with what definitions are compiled to, given as such or as documents. -/
theorem read_render_iff (s : BuildSpec) (d : Definition) (v : Value) :
    (s.Proper → (Yaml.read s.render = .ok (.dict s.document) ↔ s.Legible))
      ∧ (d.Proper → (Yaml.read d.compile.render = .ok (.dict d.compile.document)
        ↔ d.compile.Legible))
      ∧ ∀ c, Definition.compileValue v = .ok c → PortableReports c.reports →
        (Yaml.read c.render = .ok (.dict c.document) ↔ c.Legible) := by
  have hspec (s : BuildSpec) (h : s.Proper) :
      Yaml.read s.render = .ok (.dict s.document) ↔ s.Legible :=
    Yaml.read_write_iff (document_ne_nil s) (portable_document h)
  exact ⟨hspec s, fun h => hspec d.compile h.compile,
    fun c hc h => hspec c (Definition.proper_of_compileValue hc h)⟩

/-- Next to a space a next-line character is written as an escape, and comes back. -/
def escaped : Definition :=
  { Definition.empty with version := "a\u0085 b", environment := [("yes", "1:30")] }

theorem read_render_escaped : escaped.Proper
    ∧ Definition.compileValue escaped.document = .ok escaped.compile
    ∧ Yaml.read escaped.compile.render = .ok (.dict escaped.compile.document) := by
  have hproper : escaped.Proper := ⟨List.pairwise_singleton _ _, .nil, .nil, by
    simp [escaped, Definition.empty, PortableReports]⟩
  have hcompile : Definition.compileValue escaped.document = .ok escaped.compile := rfl
  have hiff := read_render_iff escaped.compile escaped escaped.document
  have hlegible : escaped.compile.Legible :=
    (hiff.1 hproper.compile).1 ((hiff.2.1 hproper).2 (by decide +kernel))
  exact ⟨hproper, hcompile, (hiff.2.2 _ hcompile hproper.compile.bodies).2 hlegible⟩

/-- Between letters it is written as it is in single quotes, and comes back as a space. -/
def folded : BuildSpec := { BuildSpec.empty with version := "a\u0085b" }

theorem read_render_folded : folded.Proper
    ∧ (Yaml.read folded.render).toOption = some (.dict (Dict.of [("version", .str "a b")]))
    ∧ Yaml.read folded.render ≠ .ok (.dict folded.document) := by
  have hread : (Yaml.read folded.render).toOption
      = some (.dict (Dict.of [("version", .str "a b")])) := by decide +kernel
  have hproper : folded.Proper :=
    ⟨by simp [folded, empty], .nil, .nil, .nil, by simp [folded, empty, PortableReports]⟩
  refine ⟨hproper, hread, fun h => ?_⟩
  rw [h] at hread
  exact absurd hread (by decide +kernel)

end BuildSpec

end BuildPipeline
