import BuildPipeline.BuildSpec.Render
import BuildPipeline.Proofs.LineGroups
import BuildPipeline.Proofs.NormalForms

/-!
Definitions whose blocks are interleaved in another way. What is compiled depends on the order of
the blocks within each group alone, as long as no two blocks share an identifier.
-/

namespace BuildPipeline

/-- The same blocks, and those of each group in the same order. -/
structure Interleaved (bs bs' : List Block) : Prop where
  perm : bs.Perm bs'
  groups : ∀ g : BlockGroup, bs.filter (·.group? = some g) = bs'.filter (·.group? = some g)

namespace Table

variable {κ α : Type} [BEq κ] [LawfulBEq κ] [DecidableEq κ]

/-- A table made key by key. -/
theorem get?_filterMap (ks : List κ) (f : κ → Option α) (k : κ) :
    get? (ks.filterMap fun k => (f k).map (k, ·)) k = if k ∈ ks then f k else none := by
  induction ks with
  | nil => rfl
  | cons j ks ih =>
    by_cases hj : j = k
    · subst hj
      cases hf : f j with
      | none => simp [hf, ih]
      | some a => simp [hf, get?]
    · have hk : k ∈ j :: ks ↔ k ∈ ks := by simp [Ne.symm hj]
      cases hf : f j with
      | none => simp [hf, ih, hk]
      | some a => simp [hf, get?, hj, ih, hk]

end Table

section Indexes

variable {bs bs' : List Block} {b : Block} {id : String}

theorem find?_eq_some_iff_mem (h : bs.Pairwise fun b b' => b.id ≠ b'.id) :
    bs.find? (·.id == id) = some b ↔ b ∈ bs ∧ b.id = id := by
  induction bs with
  | nil => simp
  | cons c bs ih =>
    obtain ⟨hc, hbs⟩ := List.pairwise_cons.1 h
    rw [List.find?_cons, List.mem_cons]
    by_cases hid : c.id = id
    · subst hid
      rw [beq_self_eq_true, Option.some_inj]
      constructor
      · rintro rfl
        exact ⟨.inl rfl, rfl⟩
      · rintro ⟨rfl | hb, hid⟩
        · rfl
        · exact absurd hid.symm (hc b hb)
    · rw [beq_eq_false_iff_ne.2 hid, ih hbs]
      refine and_congr_left fun hb => (or_iff_right ?_).symm
      rintro rfl
      exact hid hb

/-- Where no two blocks share an identifier, the index does not depend on their order. -/
theorem get?_index_of_perm (h : bs.Pairwise fun b b' => b.id ≠ b'.id) (hp : bs.Perm bs')
    (id : String) : Table.get? (Block.index bs') id = Table.get? (Block.index bs) id := by
  have h' : bs'.Pairwise fun b b' => b.id ≠ b'.id := hp.pairwise h fun hb => hb.symm
  ext b
  rw [get?_index, get?_index, find?_eq_some_iff_mem h, find?_eq_some_iff_mem h', hp.mem_iff]

theorem Block.lines_congr {i j : Table String Block}
    (h : ∀ ref, Table.get? j ref = Table.get? i ref) (b : Block) (label : String) :
    b.lines label j = b.lines label i := by
  have hreferenced : referenced j = referenced i := by
    funext ref
    rw [referenced, referenced, h]
  rw [Block.lines, Block.lines]
  split
  · rw [Block.conditional, Block.conditional, hreferenced]
  · rfl

end Indexes

namespace Definition

variable {d : Definition} {bs : List Block} {g : BlockGroup}

theorem groupLines_eq (d : Definition) (g : BlockGroup) : d.groupLines g
    = (d.blocks.filter (·.group? = some g)).flatMap fun b =>
      b.lines g.label (Block.index d.blocks) := by
  rw [groupLines]
  simp only [Block.group_beq_name]

theorem groupLines_interleaved (hids : d.blocks.Pairwise fun b b' => b.id ≠ b'.id)
    (h : Interleaved d.blocks bs) (g : BlockGroup) :
    { d with blocks := bs }.groupLines g = d.groupLines g := by
  rw [groupLines_eq, groupLines_eq, ← h.groups g]
  exact congrArg (List.flatMap · _)
    (funext fun b => Block.lines_congr (get?_index_of_perm hids h.perm) b g.label)

/-- Whether a definition has blocks of a group. -/
def hasBlocks (d : Definition) (g : BlockGroup) : Bool := d.blocks.any (·.group? = some g)

theorem groupLines_eq_nil : d.groupLines g = [] ↔ d.hasBlocks g = false := by
  simp [groupLines_eq, hasBlocks, Block.lines_ne_nil]

/-- The policy of the phases up to the build. -/
def policy (d : Definition) : String := if d.onFailure = "" then abort else d.onFailure

theorem policy_ne_empty (d : Definition) : d.policy ≠ "" := by
  rw [policy]
  split
  · decide
  · assumption

end Definition

namespace BuildSpec

variable {name k : String}

theorem get?_part {t : Table String Value} :
    Table.get? (part name t) k = if name = k ∧ t ≠ [] then some (.ofTable t) else none := by
  cases t <;> simp [part, Table.get?]

theorem get?_listPart {field : String} {ss : List String} : Table.get? (listPart name field ss) k
    = if name = k ∧ ss ≠ [] then some (.ofTable [(field, .ofStrings ss)]) else none := by
  cases ss <;> simp [listPart, Table.get?]

/-- What the document says about a phase. -/
def shownPhase (s : BuildSpec) (phase : String) : Option Value :=
  (Dict.field s.document "phases").bind fun v => ((v.get phase).toOption).join

theorem field_phases (s : BuildSpec) : Dict.field s.document "phases"
    = if s.shownPhases = [] then none else some (.ofTable s.shownPhases) := by
  rw [document, Dict.field, Value.get?_of]
  simp [Table.get?_append, get?_part, get?_listPart, Table.get?]

theorem shownPhase_eq (s : BuildSpec) (phase : String) :
    s.shownPhase phase = Table.get? s.shownPhases phase := by
  rw [shownPhase, field_phases]
  split
  · rename_i h
    rw [h]
    rfl
  · exact congrArg (fun r : Except ShapeError (Option Value) => r.toOption.join)
      (get_ofTable s.shownPhases phase)

theorem get?_shownPhases {phase : String} (h : phase ∈ phaseOrder) (s : BuildSpec) :
    Table.get? s.shownPhases phase
      = ((Table.get? s.phases phase).filter (!·.isEmpty)).map Phase.document := by
  have hshown : s.shownPhases = phaseOrder.filterMap fun name =>
      (((Table.get? s.phases name).filter (!·.isEmpty)).map Phase.document).map (name, ·) := by
    rw [shownPhases]
    congr 1
    funext name
    cases Table.get? s.phases name with
    | none => rfl
    | some p => cases hp : p.isEmpty <;> simp [Option.filter, hp]
  rw [hshown, Table.get?_filterMap, if_pos h]

end BuildSpec

section Phases

variable {d : Definition} {name phase policy : String} {cs : List String}

theorem get?_commandPhase_self : Table.get? (Definition.commandPhase name policy cs) name
    = if cs = [] then none else some ⟨cs, some policy, []⟩ := by
  cases cs <;> simp [Definition.commandPhase, Table.get?]

theorem get?_installPhase (h : phase ≠ "install") : Table.get? d.installPhase phase = none := by
  rw [Definition.installPhase]
  split
  · split
    · rfl
    · simp [Table.get?, h.symm]
  · rfl

/-- What is shown of a phase that has commands and a policy. -/
def Phase.shown (cs : List String) (policy : String) : Value :=
  .ofTable [("commands", .ofStrings cs), ("on-failure", .str policy)]

theorem Phase.map_document (h : policy ≠ "") {p : Bool} (hcs : cs = [] ↔ p = false) :
    ((if cs = [] then none else some ⟨cs, some policy, []⟩ : Option Phase).filter
      (!·.isEmpty)).map Phase.document = if p then some (shown cs policy) else none := by
  cases p with
  | false => simp [hcs.2 rfl]
  | true =>
    have hne : cs ≠ [] := fun hnil => Bool.noConfusion (hcs.1 hnil)
    simp [hne, Option.filter, Phase.isEmpty, Phase.document, shown, h]

namespace Definition

theorem shownPhase_pre_build (d : Definition) : d.compile.shownPhase "pre_build"
    = if d.hasBlocks .custom then some (Phase.shown (d.groupLines .custom) d.policy) else none := by
  rw [BuildSpec.shownPhase_eq, BuildSpec.get?_shownPhases (by decide),
    ← Phase.map_document d.policy_ne_empty groupLines_eq_nil]
  simp [compile, Table.get?_append, get?_installPhase, get?_commandPhase, get?_commandPhase_self,
    Definition.policy]

theorem shownPhase_build (d : Definition) : d.compile.shownPhase "build"
    = if d.hasBlocks .build then some (Phase.shown (d.groupLines .build) d.policy) else none := by
  rw [BuildSpec.shownPhase_eq, BuildSpec.get?_shownPhases (by decide),
    ← Phase.map_document d.policy_ne_empty groupLines_eq_nil]
  simp [compile, Table.get?_append, get?_installPhase, get?_commandPhase, get?_commandPhase_self,
    Definition.policy]

theorem shownPhase_post_build (d : Definition) : d.compile.shownPhase "post_build"
    = if d.hasBlocks .test || d.hasBlocks .run
      then some (Phase.shown (d.groupLines .test ++ d.groupLines .run) "CONTINUE") else none := by
  have hlines : d.groupLines .test ++ d.groupLines .run = []
      ↔ (d.hasBlocks .test || d.hasBlocks .run) = false := by
    rw [List.append_eq_nil_iff, groupLines_eq_nil, groupLines_eq_nil, Bool.or_eq_false_iff]
  rw [BuildSpec.shownPhase_eq, BuildSpec.get?_shownPhases (by decide),
    ← Phase.map_document (by decide) hlines]
  simp [compile, Table.get?_append, get?_installPhase, get?_commandPhase, get?_commandPhase_self]

end Definition

/-- What is compiled, and its text, depends on the blocks of each group in their order and on
nothing else about the order of the blocks, if no two of them share an identifier. Each phase shows
the lines of its groups, those of tests before those of runs, if it has a block at all, with the
policy of the definition up to the build and with a policy of its own after it. A definition that
was read has a policy. -/
theorem compile_interleaved {d : Definition}
    (hids : d.blocks.Pairwise fun b b' => b.id ≠ b'.id) :
    (∀ bs, Interleaved d.blocks bs → { d with blocks := bs }.compile = d.compile
      ∧ { d with blocks := bs }.compile.text = d.compile.text)
    ∧ (d.compile.shownPhase "pre_build" = if d.hasBlocks .custom
        then some (Phase.shown (d.groupLines .custom) d.policy) else none)
    ∧ (d.compile.shownPhase "build" = if d.hasBlocks .build
        then some (Phase.shown (d.groupLines .build) d.policy) else none)
    ∧ (d.compile.shownPhase "post_build" = if d.hasBlocks .test || d.hasBlocks .run
        then some (Phase.shown (d.groupLines .test ++ d.groupLines .run) "CONTINUE") else none)
    ∧ (d.onFailure ≠ "" → d.policy = d.onFailure)
    ∧ ∀ v, Definition.read v = .ok d → d.onFailure ≠ "" := by
  refine ⟨fun bs hbs => ?_, d.shownPhase_pre_build, d.shownPhase_build, d.shownPhase_post_build,
    fun h => if_neg h, fun v hv => (Definition.normal_of_read hv).onFailure⟩
  have hcompile : { d with blocks := bs }.compile = d.compile := by
    rw [Definition.compile, Definition.compile]
    simp only [Definition.groupLines_interleaved hids hbs]
    rfl
  exact ⟨hcompile, congrArg BuildSpec.text hcompile⟩

def nightlyBlocks : List Block := [
  { Block.bare "lint" "custom_build_command" "custom" with customCommand := ["lint"] },
  { Block.bare "make" "custom_build_command" "build" with
    customCommand := ["make"], onFailed := some "notes" },
  { Block.bare "unit" "node_test_command" "test" with testCommand := ["jest"] },
  { Block.bare "smoke" "custom_test_command" "test" with onFailed := some "serve" },
  { Block.bare "serve" "custom_run_command" "run" with customCommand := ["serve"] },
  { Block.bare "notes" "custom_build_command" "docs" with customCommand := ["write"] }]

/-- The blocks of `nightlyBlocks` with the groups mixed. -/
def mixedBlocks : List Block :=
  [nightlyBlocks[5], nightlyBlocks[4], nightlyBlocks[2], nightlyBlocks[1], nightlyBlocks[3],
    nightlyBlocks[0]]

def nightly : Definition := { Definition.empty with blocks := nightlyBlocks }

theorem interleaved_mixedBlocks : Interleaved nightlyBlocks mixedBlocks where
  perm := by decide
  groups g := by cases g <;> decide

theorem compile_interleaved_nightly : (nightlyBlocks.Pairwise fun b b' => b.id ≠ b'.id)
    ∧ Interleaved nightlyBlocks mixedBlocks ∧ nightlyBlocks ≠ mixedBlocks
    ∧ { nightly with blocks := mixedBlocks }.compile = nightly.compile
    ∧ nightly.compile.shownPhase "build" = some (Phase.shown
        ["# Block: make (with fallback)", "if", "  make", "then",
          "  echo \"Block make succeeded\"", "else",
          "  echo \"Block make failed, running fallback\"", "  write", "fi"] "ABORT") := by
  have hids : nightlyBlocks.Pairwise fun b b' => b.id ≠ b'.id := by decide
  obtain ⟨hinterleaved, -, hbuild, -⟩ := compile_interleaved (d := nightly) hids
  refine ⟨hids, interleaved_mixedBlocks, by decide, (hinterleaved _ interleaved_mixedBlocks).1, ?_⟩
  rw [hbuild]
  decide +kernel

end Phases

end BuildPipeline
