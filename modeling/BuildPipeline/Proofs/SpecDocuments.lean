import BuildPipeline.BuildSpec.Render
import BuildPipeline.Proofs.DocumentKinds
import BuildPipeline.Proofs.Yaml.WrittenContent

/-! Documents of build specifications: no mapping in them has a key twice, if none of the
specification's tables has, and they are of any kind that their reports are of. -/

namespace BuildPipeline

open Yaml (Portable PortableEntries portableEntries_iff portableAll_iff)

variable {Q : Value → Prop} {t : Table String Value} {names : List String} {name : String}
  {v : Value}

section Tables

theorem portable_of (h : Table.Distinct t) (hv : ∀ e ∈ t, Portable e.2) :
    Portable (.dict (Dict.of t)) := by
  refine ⟨distinct_of h, portableEntries_iff.2 fun e he => ?_⟩
  obtain ⟨f, hf, rfl⟩ := List.mem_map.1 he
  exact ⟨trivial, hv f hf⟩

theorem portable_ofTable (h : Table.Distinct t) (hv : ∀ e ∈ t, Portable e.2) :
    Portable (.ofTable t) := portable_of h hv

theorem portable_ofStrings (ss : List String) : Portable (.ofStrings ss) := by
  refine portableAll_iff.2 fun v hv => ?_
  obtain ⟨s, -, rfl⟩ := List.mem_map.1 hv
  trivial

theorem admits_portable : Admits Portable where
  null := trivial
  text _ := trivial
  int _ := trivial
  texts := portable_ofStrings
  dict := by
    rintro _ ⟨t, rfl, hdistinct, ht⟩
    exact portable_of hdistinct ht
  field d name v h hv := by
    obtain ⟨e, he, rfl⟩ := Table.mem_of_get? hv
    exact (portableEntries_iff.1 h.2 e he).2

/-- A table of some names at most, in their order, with values of a kind. -/
structure IsPart (Q : Value → Prop) (names : List String) (t : Table String Value) : Prop where
  keys : (Table.keys t).Sublist names
  values : ∀ e ∈ t, Q e.2

theorem IsPart.append {names' : List String} {u : Table String Value} (h : IsPart Q names t)
    (h' : IsPart Q names' u) : IsPart Q (names ++ names') (t ++ u) := by
  refine ⟨?_, List.forall_mem_append.2 ⟨h.values, h'.values⟩⟩
  rw [Table.keys_append]
  exact h.keys.append h'.keys

theorem IsPart.over (h : IsPart Q names t) (hnames : names.Nodup) : (Dict.of t).Over Q :=
  Dict.over_of (Table.distinct_of_keys h.keys hnames) h.values

theorem isPart_nil (names : List String) : IsPart Q names [] := ⟨List.nil_sublist _, by simp⟩

theorem isPart_single (name : String) (h : Q v) : IsPart Q [name] [(name, v)] :=
  ⟨List.Sublist.refl _, List.forall_mem_singleton.2 h⟩

theorem Admits.ofTexts (hQ : Admits Q) {t : Table String String} (h : Table.Distinct t) :
    Q (.ofTexts t) := by
  refine hQ.dict _ (Dict.over_of (h.mapValues _) fun e he => ?_)
  obtain ⟨f, -, rfl⟩ := List.mem_map.1 he
  exact hQ.text f.2

end Tables

theorem Phase.admitted (hQ : Admits Q) {p : Phase} (h : Table.Distinct p.runtimes) :
    Q p.document := by
  have hruntimes : IsPart Q ["runtime-versions"]
      (if p.runtimes.isEmpty then [] else [("runtime-versions", .ofTexts p.runtimes)]) := by
    split
    · exact isPart_nil _
    · exact isPart_single _ (hQ.ofTexts h)
  have hpolicy (policy : String) : IsPart Q ["on-failure"]
      (if policy = "" then [] else [("on-failure", .str policy)]) := by
    split
    · exact isPart_nil _
    · exact isPart_single _ (hQ.text policy)
  have hcommands := isPart_single (Q := Q) "commands" (hQ.texts p.commands)
  rw [Phase.document]
  refine hQ.dict _ ((hruntimes.append
    (?_ : IsPart Q ["commands", "on-failure"] _)).over (by decide))
  split
  · exact isPart_nil _
  · split
    · exact hcommands.append (hpolicy _)
    · exact hcommands.append (isPart_nil ["on-failure"])

namespace BuildSpec

/-- Reports that show values of a kind. -/
def ShowsReports (Q : Value → Prop) (reports : Table String Dict) : Prop :=
  ∀ e ∈ reports, ∀ name ∈ reportKeys, ∀ v, Dict.field e.2 name = some v → Q v

def PortableReports (reports : Table String Dict) : Prop :=
  ∀ e ∈ reports, ∀ name ∈ reportKeys, ∀ v, Dict.field e.2 name = some v → Portable v

/-- A specification none of whose tables has a key twice. -/
structure Distinct (s : BuildSpec) : Prop where
  runtimes : ∀ e ∈ s.phases, Table.Distinct e.2.runtimes
  environment : Table.Distinct s.environment
  secrets : Table.Distinct s.secrets
  reports : Table.Distinct s.reports

/-- A specification whose tables have no key twice and whose reports show portable values. -/
structure Proper (s : BuildSpec) : Prop where
  runtimes : ∀ e ∈ s.phases, Table.Distinct e.2.runtimes
  environment : Table.Distinct s.environment
  secrets : Table.Distinct s.secrets
  reports : Table.Distinct s.reports
  bodies : PortableReports s.reports

variable {s : BuildSpec}

section Parts

variable (hQ : Admits Q)

include hQ

theorem isPart_part (h : (Dict.of t).Over Q) (name : String) : IsPart Q [name] (part name t) := by
  rw [part]
  split
  · exact isPart_nil _
  · exact isPart_single _ (hQ.dict _ h)

theorem isPart_listPart (name field : String) (ss : List String) :
    IsPart Q [name] (listPart name field ss) := by
  rw [listPart]
  split
  · exact isPart_nil _
  · exact isPart_single _ (hQ.dict _ ((isPart_single field (hQ.texts ss)).over (by simp)))

theorem isPart_textsPart {t : Table String String} (h : Table.Distinct t) (name : String) :
    IsPart Q [name] (textsPart name t) := by
  refine isPart_part hQ (Dict.over_of (h.mapValues _) fun e he => ?_) name
  obtain ⟨f, -, rfl⟩ := List.mem_map.1 he
  exact hQ.text f.2

theorem isPart_shownPhases (h : ∀ e ∈ s.phases, Table.Distinct e.2.runtimes) :
    IsPart Q phaseOrder s.shownPhases := by
  refine ⟨Table.keys_filterMap_sublist fun name e he => ?_, fun e he => ?_⟩
  · split at he
    · split at he
      · cases he
      · cases he
        rfl
    · cases he
  · obtain ⟨name, -, he⟩ := List.mem_filterMap.1 he
    split at he
    · rename_i p hp
      split at he
      · cases he
      · cases he
        obtain ⟨f, hf, rfl⟩ := Table.mem_of_get? hp
        exact Phase.admitted hQ (h f hf)
    · cases he

theorem admitted_shownReport {r : Dict}
    (h : ∀ name ∈ reportKeys, ∀ v, Dict.field r name = some v → Q v) : Q (shownReport r) := by
  have hpart : IsPart Q reportKeys
      (reportKeys.filterMap fun k => (Dict.field r k).map (k, ·)) := by
    refine ⟨Table.keys_filterMap_sublist fun name e he => ?_, fun e he => ?_⟩
    · obtain ⟨v, -, rfl⟩ := Option.map_eq_some_iff.1 he
      rfl
    · obtain ⟨name, hname, he⟩ := List.mem_filterMap.1 he
      obtain ⟨v, hv, rfl⟩ := Option.map_eq_some_iff.1 he
      exact h name hname v hv
  exact hQ.dict _ (hpart.over (by decide))

/-- The document of a specification is of a kind that its reports show. -/
theorem over_document (h : s.Distinct) (hbodies : ShowsReports Q s.reports) :
    s.document.Over Q := by
  have hreports : (Dict.of (s.reports.mapValues shownReport)).Over Q := by
    refine Dict.over_of (h.reports.mapValues _) fun e he => ?_
    obtain ⟨f, hf, rfl⟩ := List.mem_map.1 he
    exact admitted_shownReport hQ (hbodies f hf)
  have henv := ((isPart_textsPart hQ h.environment "variables").append
    (isPart_textsPart hQ h.secrets "secrets-manager")).over (by decide)
  have hphases := (isPart_shownPhases hQ h.runtimes).over (by decide)
  have hversion : IsPart Q ["version"] [("version", .str s.version)] :=
    isPart_single _ (hQ.text s.version)
  have hall := ((((hversion.append (isPart_part hQ hphases "phases")).append
    (isPart_listPart hQ "artifacts" "files" s.artifacts)).append
      (isPart_part hQ henv "env")).append
    (isPart_listPart hQ "cache" "paths" s.cachePaths)).append (isPart_part hQ hreports "reports")
  exact hall.over (by decide)

end Parts

theorem Proper.distinct (h : s.Proper) : s.Distinct :=
  ⟨h.runtimes, h.environment, h.secrets, h.reports⟩

theorem portable_document (h : s.Proper) : Portable (.dict s.document) :=
  admits_portable.dict _ (over_document admits_portable h.distinct h.bodies)

theorem document_ne_nil (s : BuildSpec) : s.document ≠ [] := by
  rw [document]
  simp [Dict.of]

end BuildSpec

namespace Definition

/-- A definition whose tables have no key twice and whose reports show portable values. -/
structure Proper (d : Definition) : Prop where
  environment : Table.Distinct d.environment
  secrets : Table.Distinct d.secrets
  reports : Table.Distinct d.reports
  bodies : BuildSpec.PortableReports d.reports

variable {d : Definition}

theorem runtimes_installPhase (d : Definition) :
    ∀ e ∈ d.installPhase, Table.Distinct e.2.runtimes := by
  rw [installPhase]
  split
  · split
    · simp
    · exact List.forall_mem_singleton.2 (List.pairwise_singleton _ _)
  · simp

theorem runtimes_commandPhase (name policy : String) (commands : List String) :
    ∀ e ∈ commandPhase name policy commands, Table.Distinct e.2.runtimes := by
  rw [commandPhase]
  split
  · simp
  · exact List.forall_mem_singleton.2 List.Pairwise.nil

theorem runtimes_compile (d : Definition) :
    ∀ e ∈ d.compile.phases, Table.Distinct e.2.runtimes := by
  simp only [Definition.compile, List.forall_mem_append]
  exact ⟨⟨⟨runtimes_installPhase d, runtimes_commandPhase _ _ _⟩, runtimes_commandPhase _ _ _⟩,
    runtimes_commandPhase _ _ _⟩

theorem Proper.compile (h : d.Proper) : d.compile.Proper where
  runtimes := runtimes_compile d
  environment := h.environment
  secrets := h.secrets
  reports := h.reports
  bodies := h.bodies

theorem distinct_textEntries {v : Value} {t : Table String String} (h : v.textEntries = .ok t) :
    Table.Distinct t := by
  obtain ⟨es, -, h⟩ := bind_eq_ok.1 h
  cases h
  exact Table.distinct_ofList _

theorem distinct_readReports {v : Value} {t : Table String Dict} (h : readReports v = .ok t) :
    Table.Distinct t := by
  obtain ⟨es, -, h⟩ := bind_eq_ok.1 h
  obtain ⟨rs, -, h⟩ := bind_eq_ok.1 h
  cases h
  exact Table.distinct_ofList _

/-- What is read has no key twice, and its reports are read from a field. -/
theorem tables_of_read {v : Value} (h : read v = .ok d) : Table.Distinct d.environment
    ∧ Table.Distinct d.secrets
    ∧ ∃ field, v.get "reports" = .ok field ∧ readReports (field.getD .null) = .ok d.reports := by
  simp only [read, bind_eq_ok] at h
  obtain ⟨_, -, _, -, _, -, _, -, _, -, _, -, _, -, _, -, _, -, _, -, environment, henvironment,
    _, -, secrets, hsecrets, _, -, _, -, field, ⟨field', hfield, hpure⟩, reports, hreports, h⟩ := h
  cases h
  cases hpure
  exact ⟨distinct_textEntries henvironment, distinct_textEntries hsecrets, field', hfield, hreports⟩

/-- Definitions that are read have no key twice. -/
theorem proper_of_read {v : Value} (h : read v = .ok d)
    (hbodies : BuildSpec.PortableReports d.reports) : d.Proper := by
  obtain ⟨henvironment, hsecrets, field, -, hreports⟩ := tables_of_read h
  exact ⟨henvironment, hsecrets, distinct_readReports hreports, hbodies⟩

theorem distinct_compile_of_read {v : Value} (h : read v = .ok d) : d.compile.Distinct := by
  obtain ⟨henvironment, hsecrets, field, -, hreports⟩ := tables_of_read h
  exact ⟨runtimes_compile d, henvironment, hsecrets, distinct_readReports hreports⟩

/-- So do the specifications that are compiled from them. -/
theorem proper_of_compileValue {v : Value} {s : BuildSpec} (h : compileValue v = .ok s)
    (hbodies : BuildSpec.PortableReports s.reports) : s.Proper := by
  cases v with
  | dict es =>
    obtain ⟨d, hd, h⟩ := bind_eq_ok.1 h
    cases h
    exact (proper_of_read hd hbodies).compile
  | _ => cases h

end Definition

end BuildPipeline
