import BuildPipeline.Proofs.SpecDocuments

/-!
Blocks and definitions in normal form. Reading a document always leads to one, and exactly those in
normal form are read from their own documents.
-/

namespace BuildPipeline

section Texts

variable {v : Value}

theorem ofList_ne_empty {cs : List Char} (h : cs ≠ []) : String.ofList cs ≠ "" := by
  rwa [ne_eq, ← String.toList_inj, String.toList_ofList]

theorem layout_ne_nil (d : Number.Decimal) : Number.layout d ≠ [] := by
  rw [Number.layout]
  split
  · rw [Number.positional]
    split_ifs <;> simp
  · simp [Number.scientific]

theorem display_ne_empty (x : Float) : Number.display x ≠ "" := by
  rw [Number.display]
  split
  · decide
  · split <;> decide
  · rename_i negative m q _
    refine ofList_ne_empty ?_
    cases negative
    · by_cases hm : m = 0 <;> simp [hm, layout_ne_nil]
    · simp

theorem Scalar.text_ne_empty {s : Scalar} (h : (Value.scalar s).truthy) : s.text ≠ "" := by
  cases s with
  | null => nomatch h
  | bool b => cases b <;> decide
  | int n =>
    change toString n ≠ ""
    rw [ne_eq, ← String.toList_inj, Yaml.toList_toString_int]
    split <;> simp
  | float x => exact display_ne_empty x
  | str s =>
    have hs : s ≠ "" := by simpa [Value.truthy] using h
    exact hs
  | bytes bs => exact ofList_ne_empty (by simp)
  | date d => exact ofList_ne_empty (by simp)
  | moment t => exact ofList_ne_empty (by simp)

/-- Only what counts as false has an empty text. -/
theorem Value.text_ne_empty (h : v.truthy) : v.text ≠ "" := by
  cases v with
  | scalar s => exact Scalar.text_ne_empty h
  | set ks => cases ks <;> simp [Value.text, Value.literal]
  | loop kind => cases kind <;> simp [Value.text, Value.literal]
  | _ => simp [Value.text, Value.literal]

theorem Value.text_orElse_ne_empty (v : Value) {s : String} (h : s ≠ "") :
    (v.orElse (.str s)).text ≠ "" := by
  rw [Value.orElse]
  split
  · exact Value.text_ne_empty ‹_›
  · exact h

theorem Value.optionalText_ne (v : Value) : v.optionalText ≠ some "" := by
  rw [Value.optionalText.eq_def]
  split
  · exact nofun
  · split
    · exact nofun
    · rename_i h
      exact fun hsome => h (Option.some.inj hsome)

end Texts

section Fields

variable {t : Table String Value} {name k : String} {o : Option String} {ss : List String}

theorem get_ofTable (t : Table String Value) (name : String) :
    (Value.ofTable t).get name = .ok (Table.get? t name) :=
  congrArg Except.ok (Value.get?_of t name)

theorem item_ofTable {v : Value} (h : Table.get? t name = some v) :
    (Value.ofTable t).item name = .ok v := by
  rw [Value.ofTable, ← Dict.of, Value.item, Dict.field, Value.get?_of, h]

theorem get?_textField : Table.get? (Block.textField name o) k
    = if name = k then o.map .str else none := by
  cases o <;> simp [Block.textField, Table.get?]

theorem get?_textsField : Table.get? (Block.textsField name ss) k
    = if name = k ∧ ss ≠ [] then some (.ofStrings ss) else none := by
  cases ss <;> simp [Block.textsField, Table.get?]

theorem orElse_str {s : String} (h : s ≠ "") (v : Value) : (Value.str s).orElse v = .str s :=
  if_pos (bne_iff_ne.2 h)

theorem texts_ofStrings (ss : List String) : (Value.ofStrings ss).texts = .ok ss := by
  have htexts : (ss.map Value.str).map Value.text = ss := by
    rw [List.map_map]
    exact List.map_id _
  cases ss with
  | nil => rfl
  | cons s ss => exact congrArg Except.ok htexts

theorem texts_textsField :
    (((if ss ≠ [] then some (Value.ofStrings ss) else none : Option Value)).getD .null).texts
      = .ok ss := by
  cases ss with
  | nil => rfl
  | cons s ss => exact texts_ofStrings (s :: ss)

theorem optionalText_textField (h : o ≠ some "") :
    ((o.map Value.str).getD .null).optionalText = o := by
  cases o with
  | none => rfl
  | some s => exact if_neg fun hs => h (congrArg some hs)

end Fields

namespace Block

/-- A block none of whose references is an empty text. -/
structure Normal (b : Block) : Prop where
  onSuccess : b.onSuccess ≠ some ""
  onFailed : b.onFailed ≠ some ""
  packageManager : b.packageManager ≠ some ""

variable {b : Block} {v : Value}

theorem normal_of_read (h : read v = .ok b) : b.Normal := by
  simp only [read, bind_eq_ok] at h
  obtain ⟨_, -, _, -, _, -, _, -, _, -, _, -, _, -, _, -, _, -, _, -, _, -, _, -, h⟩ := h
  cases h
  exact ⟨Value.optionalText_ne _, Value.optionalText_ne _, Value.optionalText_ne _⟩

theorem get_document (b : Block) (name : String) : b.document.get name = .ok
    ((((((((Table.get? [("id", .str b.id), ("block_type", .str b.type),
      ("group_type", .str b.group)] name).or
      (if "on_success" = name then b.onSuccess.map .str else none)).or
      (if "on_failed" = name then b.onFailed.map .str else none)).or
      (if "package_manager" = name then b.packageManager.map .str else none)).or
      (if "package_list" = name ∧ b.packages ≠ [] then some (.ofStrings b.packages) else none)).or
      (if "custom_command" = name ∧ b.customCommand ≠ [] then some (.ofStrings b.customCommand)
        else none)).or
      (if "test_command" = name ∧ b.testCommand ≠ [] then some (.ofStrings b.testCommand)
        else none))) := by
  rw [document, get_ofTable]
  simp only [Table.get?_append, get?_textField, get?_textsField]

/-- A block in normal form is read from its document. -/
theorem read_document (h : b.Normal) : read b.document = .ok b := by
  have hid : b.document.item "id" = .ok (.str b.id) := item_ofTable rfl
  have htype : b.document.get "block_type" = .ok (some (.str b.type)) := by
    simp [get_document, Table.get?]
  have hgroup : b.document.get "group_type" = .ok (some (.str b.group)) := by
    simp [get_document, Table.get?]
  have hsuccess : b.document.get "on_success" = .ok (b.onSuccess.map .str) := by
    simp [get_document, Table.get?]
  have hfailed : b.document.get "on_failed" = .ok (b.onFailed.map .str) := by
    simp [get_document, Table.get?]
  have hmanager : b.document.get "package_manager" = .ok (b.packageManager.map .str) := by
    simp [get_document, Table.get?]
  have hpackages : b.document.get "package_list"
      = .ok (if b.packages ≠ [] then some (.ofStrings b.packages) else none) := by
    simp [get_document, Table.get?]
  have hcustom : b.document.get "custom_command"
      = .ok (if b.customCommand ≠ [] then some (.ofStrings b.customCommand) else none) := by
    simp [get_document, Table.get?]
  have htest : b.document.get "test_command"
      = .ok (if b.testCommand ≠ [] then some (.ofStrings b.testCommand) else none) := by
    simp [get_document, Table.get?]
  simp only [read, hid, htype, hgroup, hsuccess, hfailed, hmanager, hpackages, hcustom, htest,
    ok_bind, pure, Except.pure, texts_textsField, optionalText_textField h.onSuccess,
    optionalText_textField h.onFailed, optionalText_textField h.packageManager]
  rfl

theorem read_document_iff : read b.document = .ok b ↔ b.Normal :=
  ⟨normal_of_read, read_document⟩

end Block

section Tables

theorem textEntries_ofTexts {t : Table String String} (h : t.Distinct) :
    (Value.ofTexts t).textEntries = .ok t := by
  have htexts : (Dict.of (t.mapValues Value.str)).map (fun e => (e.1.text, e.2.text)) = t := by
    rw [Dict.of, Table.mapValues, List.map_map, List.map_map]
    exact List.map_id _
  rw [Value.textEntries, Value.ofTexts, Value.ofTable, ← Dict.of, Value.items_dict, ok_bind, htexts,
    Table.ofList_of_distinct h]
  rfl

theorem readReports_ofTable {t : Table String Dict} (h : t.Distinct) :
    Definition.readReports (.ofTable (t.mapValues .dict)) = .ok t := by
  rw [Definition.readReports, Value.ofTable, ← Dict.of, Value.items_dict, ok_bind,
    Value.mapM_toDict_of, ok_bind, Table.ofList_of_distinct h]
  rfl

theorem mapM_document {bs : List Block} (h : ∀ b ∈ bs, b.Normal) :
    (bs.map Block.document).mapM Block.read = .ok bs := by
  rw [mapM_eq_ok, List.forall₂_map_left_iff]
  exact List.forall₂_same.2 fun b hb => Block.read_document (h b hb)

end Tables

namespace Definition

/-- A definition that a document can hold: no empty version, policy or runtime, blocks in normal
form, and no key twice in a table. -/
structure Normal (d : Definition) : Prop where
  version : d.version ≠ ""
  runtime : d.runtime ≠ some ""
  blocks : ∀ b ∈ d.blocks, b.Normal
  environment : d.environment.Distinct
  secrets : d.secrets.Distinct
  reports : d.reports.Distinct
  onFailure : d.onFailure ≠ ""

variable {d : Definition} {v : Value}

theorem normal_of_read (h : read v = .ok d) : d.Normal := by
  simp only [read, bind_eq_ok] at h
  obtain ⟨_, -, onFailure, -, version, -, runtime, -, _, -, _, -, blocks, hblocks, _, -, _, -,
    _, -, environment, henvironment, _, -, secrets, hsecrets, _, -, _, -, _, -, reports, hreports,
    h⟩ := h
  cases h
  refine ⟨Value.text_orElse_ne_empty _ (by decide), Value.optionalText_ne _, fun b hb => ?_,
    distinct_textEntries henvironment, distinct_textEntries hsecrets, distinct_readReports hreports,
    Value.text_orElse_ne_empty _ (by decide)⟩
  obtain ⟨_, -, hread⟩ := exists_mem_of_forall₂ (mapM_eq_ok.1 hblocks) hb
  exact Block.normal_of_read hread

theorem get_document (h : d.runtime ≠ some "") (name : String) : d.document.get name = .ok
    (((Table.get? [("version", .str d.version)] name).or
      (if "runtime" = name then d.runtime.map .str else none)).or
      (Table.get? [("blocks", .list (d.blocks.map Block.document)),
        ("artifacts", .ofStrings d.artifacts), ("environment_variables", .ofTexts d.environment),
        ("secrets", .ofTexts d.secrets), ("cache", .ofTable [("paths", .ofStrings d.cachePaths)]),
        ("reports", .ofTable (d.reports.mapValues .dict)), ("on_failure", .str d.onFailure)]
        name)) := by
  have hruntime : d.runtime.filter (· != "") = d.runtime := by
    cases hr : d.runtime with
    | none => rfl
    | some r => exact Option.filter_some_pos (by simpa [hr] using h)
  rw [document, get_ofTable, hruntime]
  simp only [Table.get?_append, get?_textField]

/-- A definition in normal form is read from its document. -/
theorem read_document (h : d.Normal) : read d.document = .ok d := by
  have hversion : d.document.get "version" = .ok (some (.str d.version)) := by
    simp [get_document h.runtime, Table.get?]
  have hruntime : d.document.get "runtime" = .ok (d.runtime.map .str) := by
    simp [get_document h.runtime, Table.get?]
  have hblocks : d.document.get "blocks" = .ok (some (.list (d.blocks.map Block.document))) := by
    simp [get_document h.runtime, Table.get?]
  have hartifacts : d.document.get "artifacts" = .ok (some (.ofStrings d.artifacts)) := by
    simp [get_document h.runtime, Table.get?]
  have henvironment : d.document.get "environment_variables"
      = .ok (some (.ofTexts d.environment)) := by
    simp [get_document h.runtime, Table.get?]
  have hsecrets : d.document.get "secrets" = .ok (some (.ofTexts d.secrets)) := by
    simp [get_document h.runtime, Table.get?]
  have hcache : d.document.get "cache"
      = .ok (some (.ofTable [("paths", .ofStrings d.cachePaths)])) := by
    simp [get_document h.runtime, Table.get?]
  have hreports : d.document.get "reports" = .ok (some (.ofTable (d.reports.mapValues .dict))) := by
    simp [get_document h.runtime, Table.get?]
  have honFailure : d.document.get "on_failure" = .ok (some (.str d.onFailure)) := by
    simp [get_document h.runtime, Table.get?]
  have hpaths : ((Value.ofTable [("paths", .ofStrings d.cachePaths)]).orElse (.dict [])).get "paths"
      = .ok (some (.ofStrings d.cachePaths)) := rfl
  simp only [read, hversion, hruntime, hblocks, hartifacts, henvironment, hsecrets, hcache,
    hreports, honFailure, hpaths, ok_bind, pure, Except.pure, Option.getD_some,
    Value.elements_list, mapM_document h.blocks, texts_ofStrings,
    textEntries_ofTexts h.environment, textEntries_ofTexts h.secrets, readReports_ofTable h.reports,
    optionalText_textField h.runtime, orElse_str h.version, orElse_str h.onFailure]
  rfl

theorem read_document_iff : read d.document = .ok d ↔ d.Normal :=
  ⟨normal_of_read, read_document⟩

theorem compileValue_of_read (h : read v = .ok d) : compileValue v = .ok d.compile := by
  cases v with
  | dict es => rw [compileValue, h, ok_bind]; rfl
  | _ => nomatch h

end Definition

/-- A block given loosely: numbers, one command without a list, and an empty reference. -/
def looseBlock : Value := .ofTable [("id", .int 7), ("block_type", .str "custom_build_command"),
  ("group_type", .str "build"), ("on_failed", .str ""), ("custom_command", .str "make"),
  ("package_list", .list [.int 1, .null])]

/-- A definition given loosely: two keys that are one text, entries of a report as a list of pairs,
and a policy that counts as false. -/
def looseDefinition : Value := .ofTable [("version", .int 2), ("blocks", .list [looseBlock]),
  ("environment_variables", .dict [(.int 1, .int 2), (.str "1", .bool false)]),
  ("reports", .ofTable [("unit", .list [.ofStrings ["files", "*.xml"]])]),
  ("on_failure", .bool false), ("artifacts", .int 0)]

def strictBlock : Block := { Block.bare "7" "custom_build_command" "build" with
  customCommand := ["make"], packages := ["1", "None"] }

def strictDefinition : Definition := { Definition.empty with
  version := "2", blocks := [strictBlock], environment := [("1", "False")],
  reports := [("unit", Dict.of [("files", .str "*.xml")])] }

end BuildPipeline
