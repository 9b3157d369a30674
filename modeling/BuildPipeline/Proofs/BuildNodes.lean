import BuildPipeline.BuildNode
import BuildPipeline.Proofs.NormalForms

/-!
Build specifications of build nodes. A node goes through a runtime, two typed blocks and their ids
on its way to one; what comes out is written down here without that detour.
-/

namespace BuildPipeline

theorem Value.texts_eq_error {v : Value} {e : ShapeError} :
    v.texts = .error e ↔ v.truthy ∧ (∀ s, v ≠ .str s) ∧ v.elements = .error e := by
  rw [Value.texts.eq_def]
  by_cases htruthy : v.truthy
  · rw [if_neg (by simp [htruthy])]
    split
    · simp [Value.str]
    · rename_i hstr
      have hne : ∀ s, v ≠ .str s := fun s hs => hstr s hs
      cases v.elements <;> simp [htruthy, hne, bind, Except.bind, pure, Except.pure]
  · simp [htruthy]

/-- The version of a runtime is all that stands after the first colon. -/
theorem Definition.splitRuntime_append (name : String) {version : String}
    (hname : ':' ∉ name.toList) (hversion : version ≠ "") :
    splitRuntime (name ++ ":" ++ version) = (name, version) := by
  have hbefore : ∀ c ∈ name.toList, (c != ':') = true :=
    fun c hc => bne_iff_ne.2 fun h => hname (h ▸ hc)
  have hcolon : (":" ++ version).toList = ':' :: version.toList := by simp
  have htake : (name ++ ":" ++ version).toList.takeWhile (· != ':') = name.toList := by
    rw [String.append_assoc, String.toList_append, List.takeWhile_append_of_pos hbefore, hcolon]
    simp
  have hdrop : (name ++ ":" ++ version).toList.dropWhile (· != ':') = ':' :: version.toList := by
    rw [String.append_assoc, String.toList_append, List.dropWhile_append_of_pos hbefore, hcolon]
    simp
  rw [splitRuntime, htake, hdrop]
  simp [hversion]

namespace Node

/-- The specification of a build node as a document. -/
def buildDocument (id version manager : String) (commands : List String) : Dict :=
  Dict.of [("version", .str "0.2"),
    ("phases", .ofTable [
      ("install", .ofTable [("runtime-versions", .ofTable [("nodejs", .str version)])]),
      ("pre_build", .ofTable [
        ("commands", .ofStrings ["# Block: " ++ id ++ "-install",
          "# Package manager - fail fast on error", manager ++ " install"]),
        ("on-failure", .str "ABORT")]),
      ("build", .ofTable [
        ("commands", .ofStrings (("# Block: " ++ id ++ "-build") :: commands)),
        ("on-failure", .str "ABORT")])]),
    ("artifacts", .ofTable [("files", .ofStrings ["**/*"])])]

/-- The version that a node asks for, or else the one of the settings. -/
def versionIn (n : Node) (s : BuildSettings) : String :=
  ((n.field "node_version").orElse (.str s.runtimeVersion)).text

/-- The package manager that a node asks for, or else the one of the settings. -/
def managerIn (n : Node) (s : BuildSettings) : String :=
  ((n.field "package_manager").orElse (.str s.packageManager)).text

/-- The definition that a node becomes. -/
def definitionOf (n : Node) (version manager : String) (commands : List String) : Definition :=
  { Definition.empty with
    runtime := some ("nodejs:" ++ version)
    blocks := [n.installBlock manager, n.buildBlock commands]
    artifacts := ["**/*"] }

variable {n : Node} {s : BuildSettings} {version manager : String} {commands : List String}

section Blocks

variable (index : Table String Block)

theorem lines_installBlock (h : manager ≠ "") :
    (n.installBlock manager).lines BlockGroup.custom.label index
      = ["# Block: " ++ n.id ++ "-install", "# Package manager - fail fast on error",
        manager ++ " install"] := by
  have hnamed : (n.installBlock manager).manager? = some manager := by
    simp [Block.manager?, installBlock, h]
  have hcommands : (n.installBlock manager).commands = [manager ++ " install"] := by
    change ((n.installBlock manager).manager?.map (nodePackageCommands · [])).getD [] = _
    rw [hnamed]
    rfl
  have hid : "# Block: " ++ n.id ++ "-install" = "# Block: " ++ (n.id ++ "-install") :=
    String.append_assoc
  change ["# Block: " ++ (n.id ++ "-install")] ++ ["# Package manager - fail fast on error"]
    ++ (n.installBlock manager).commands = _
  rw [hcommands, hid]
  rfl

theorem lines_buildBlock : (n.buildBlock commands).lines BlockGroup.build.label index
    = ("# Block: " ++ n.id ++ "-build") :: commands := by
  have hid : "# Block: " ++ n.id ++ "-build" = "# Block: " ++ (n.id ++ "-build") :=
    String.append_assoc
  rw [hid]
  rfl

end Blocks

theorem groupLines_definitionOf (h : manager ≠ "") (g : BlockGroup) :
    (n.definitionOf version manager commands).groupLines g = match g with
      | .custom => ["# Block: " ++ n.id ++ "-install", "# Package manager - fail fast on error",
          manager ++ " install"]
      | .build => ("# Block: " ++ n.id ++ "-build") :: commands
      | .test | .run => [] := by
  cases g with
  | custom => exact (List.append_nil _).trans (lines_installBlock _ h)
  | build => exact (List.append_nil _).trans (lines_buildBlock _)
  | test => rfl
  | run => rfl

/-- The definition of a node compiles to the node's document. -/
theorem document_definitionOf (hversion : version ≠ "") (hmanager : manager ≠ "") :
    (n.definitionOf version manager commands).compile.document
      = buildDocument n.id version manager commands := by
  have hruntime : Definition.splitRuntime ("nodejs:" ++ version) = ("nodejs", version) :=
    Definition.splitRuntime_append "nodejs" (by decide) hversion
  have hinstall : (n.definitionOf version manager commands).installPhase
      = [("install", ⟨[], none, [("nodejs", version)]⟩)] := by
    have hne : "nodejs:" ++ version ≠ "" := by simp
    rw [Definition.installPhase, definitionOf]
    exact (if_neg hne).trans (by rw [hruntime])
  rw [Definition.compile, hinstall]
  simp only [groupLines_definitionOf hmanager]
  rfl

theorem buildDefinition_eq (n : Node) (s : BuildSettings) : n.buildDefinition s
    = n.buildCommands.map (n.definitionOf (n.versionIn s) (n.managerIn s)) := by
  rw [buildDefinition]
  cases n.buildCommands <;> rfl

theorem normal_definitionOf (hmanager : manager ≠ "") :
    (n.definitionOf version manager commands).Normal where
  version := by simp [definitionOf, Definition.empty, Definition.defaultVersion]
  runtime := by simp [definitionOf]
  blocks := by
    simp only [definitionOf, List.forall_mem_cons]
    refine ⟨⟨nofun, nofun, fun h => hmanager (Option.some.inj h)⟩, ⟨nofun, nofun, nofun⟩, nofun⟩
  environment := List.Pairwise.nil
  secrets := List.Pairwise.nil
  reports := List.Pairwise.nil
  onFailure := by simp [definitionOf, Definition.empty, Definition.abort]

/-- Only a custom build can be without commands: if it has some that are neither a text nor a
sequence. -/
theorem buildCommands_eq_error {e : ShapeError} : n.buildCommands = .error e
    ↔ n.type? = some .buildCustom ∧ (n.field "commands").truthy
      ∧ (∀ text, n.field "commands" ≠ .str text) ∧ (n.field "commands").elements = .error e := by
  rw [buildCommands]
  split
  · simp [*]
  · simp [*]
  · rename_i htype
    rw [customCommands]
    by_cases htruthy : (n.field "commands").truthy
    · simp [htype, htruthy, Value.texts_eq_error]
    · simp [htruthy]
  · rename_i hcustom
    exact ⟨nofun, fun h => (hcustom h.1).elim⟩

/-- What a node compiles to, under settings that name a version and a package manager: the document
above, with the node's own commands, if it has any; and else their error. The definition on the way
is one that a document holds, which compiles to the same specification. -/
theorem buildSpec_document (n : Node) (s : BuildSettings) (hversion : s.runtimeVersion ≠ "")
    (hmanager : s.packageManager ≠ "") :
    (∀ commands, n.buildCommands = .ok commands → ∃ spec, n.buildSpec s = .ok spec
      ∧ spec.document = buildDocument n.id (n.versionIn s) (n.managerIn s) commands)
    ∧ (∀ e, n.buildSpec s = .error e ↔ n.buildCommands = .error e)
    ∧ (∀ e, n.buildCommands = .error e ↔ n.type? = some .buildCustom
        ∧ (n.field "commands").truthy ∧ (∀ text, n.field "commands" ≠ .str text)
        ∧ (n.field "commands").elements = .error e)
    ∧ ∀ d, n.buildDefinition s = .ok d →
      n.buildSpec s = .ok d.compile ∧ Definition.compileValue d.document = .ok d.compile := by
  have hversion' : n.versionIn s ≠ "" := Value.text_orElse_ne_empty _ hversion
  have hmanager' : n.managerIn s ≠ "" := Value.text_orElse_ne_empty _ hmanager
  refine ⟨fun commands hcommands => ?_, fun e => ?_, fun e => buildCommands_eq_error,
    fun d hd => ⟨?_, ?_⟩⟩
  · rw [buildSpec, buildDefinition_eq, hcommands]
    exact ⟨_, rfl, document_definitionOf hversion' hmanager'⟩
  · rw [buildSpec, buildDefinition_eq]
    cases n.buildCommands with
    | ok commands => exact ⟨nofun, nofun⟩
    | error e' => exact ⟨fun h => by cases h; rfl, fun h => by cases h; rfl⟩
  · rw [buildSpec, hd, ok_bind]
    rfl
  · rw [buildDefinition_eq] at hd
    cases hcommands : n.buildCommands with
    | error e => rw [hcommands] at hd; nomatch hd
    | ok commands =>
      rw [hcommands] at hd
      cases hd
      exact Definition.compileValue_of_read
        (Definition.read_document (normal_definitionOf hmanager'))

/-- A custom build with a colon in its version, under an identifier and with commands that look like
parts of what is generated. -/
def lookalike : Node where
  id := "if-install-build"
  type := "build_custom"
  data := Dict.of [("node_version", .str "18:lts:"), ("commands", .list
    [.str "# Block: if-install-build-install", .str "fi", .str "build:", .int 7])]

theorem buildSpec_document_lookalike :
    ∃ spec, lookalike.buildSpec ⟨"blockci", "20", "npm"⟩ = .ok spec
      ∧ spec.document = buildDocument "if-install-build" "18:lts:" "npm"
        ["# Block: if-install-build-install", "fi", "build:", "7"] := by
  have hcommands : lookalike.buildCommands
      = .ok ["# Block: if-install-build-install", "fi", "build:", "7"] := by decide +kernel
  have hversion : lookalike.versionIn ⟨"blockci", "20", "npm"⟩ = "18:lts:" := by decide +kernel
  have hmanager : lookalike.managerIn ⟨"blockci", "20", "npm"⟩ = "npm" := by decide +kernel
  have hdocument := (buildSpec_document lookalike ⟨"blockci", "20", "npm"⟩ (by decide)
    (by decide)).1 _ hcommands
  rw [hversion, hmanager] at hdocument
  exact hdocument

end Node

end BuildPipeline
