import BuildPipeline.Proofs.LineGroups

/-!
References are expanded by one level. What a block contributes follows from its own fields and from
the commands of the blocks that it refers to, whatever those refer to in turn.
-/

namespace BuildPipeline

/-- The commands of the first block with an identifier; none if no block has it. -/
def declaredCommands (bs : List Block) (ref : String) : List String :=
  ((bs.find? (·.id == ref)).map Block.commands).getD []

theorem referenced_index (bs : List Block) :
    referenced (Block.index bs) = declaredCommands bs := by
  funext ref
  rw [referenced, get?_index, declaredCommands]

namespace Block

/-- What a block falls back to. A package manager has no fallback. -/
def fallback? (b : Block) : Option String :=
  if b.isPackageManager then none else setReference b.onFailed

/-- The references that are expanded: without a fallback there is no conditional to hold them. -/
def references (b : Block) : List String :=
  match b.fallback? with
  | some fallback => fallback :: (setReference b.onSuccess).toList
  | none => []

/-- The commands that stand for success besides those of the block, each reference having some. -/
def successCommands (b : Block) (commands : String → List String) : List String :=
  ((setReference b.onSuccess).map commands).getD []

/-- Two blocks that differ in their references and their group at most. -/
def Rewired (b b' : Block) : Prop :=
  ∃ onSuccess onFailed group, b' = { b with onSuccess, onFailed, group }

variable {b b' : Block} {label fallback : String} {i j : Table String Block} {bs bs' : List Block}

theorem lines_of_fallback (h : b.fallback? = some fallback) :
    b.lines label i = b.conditional label fallback i := by
  rw [fallback?] at h
  split at h
  · cases h
  · rename_i hmanager
    rw [lines, h, Bool.eq_false_iff.2 hmanager]

theorem lines_of_no_fallback (h : b.fallback? = none) : b.lines label i = b.lines label j := by
  rw [fallback?] at h
  rw [lines, lines]
  split at h
  · rename_i hmanager
    rw [hmanager]
    cases setReference b.onFailed <;> rfl
  · rw [h]

theorem length_conditional (b : Block) (label fallback : String) (i : Table String Block) :
    (b.conditional label fallback i).length
      = 7 + b.commands.length + (referenced i fallback).length
        + (b.successCommands (referenced i)).length := by
  simp only [conditional, successCommands, List.length_append, List.length_map, List.length_cons,
    List.length_nil]
  omega

/-- Two indexes that give the references of a block the same commands give it the same lines. -/
theorem lines_eq_of_references
    (h : ∀ ref ∈ b.references, referenced j ref = referenced i ref) (label : String) :
    b.lines label j = b.lines label i := by
  cases hfallback : b.fallback? with
  | none => exact lines_of_no_fallback hfallback
  | some fallback =>
    simp only [references, hfallback, List.forall_mem_cons, Option.mem_toList] at h
    obtain ⟨hfailed, hsuccess⟩ := h
    rw [lines_of_fallback hfallback, lines_of_fallback hfallback, conditional, conditional, hfailed]
    cases hset : setReference b.onSuccess with
    | none => rfl
    | some ref => rw [Option.map_some, Option.map_some, hsuccess ref hset]

theorem Rewired.id_eq (h : Rewired b b') : b'.id = b.id := by
  obtain ⟨_, _, _, rfl⟩ := h
  rfl

/-- The commands of a block are its own: no reference and no group has a part in them. -/
theorem Rewired.commands_eq (h : Rewired b b') : b'.commands = b.commands := by
  obtain ⟨_, _, _, rfl⟩ := h
  rfl

theorem declaredCommands_rewired (h : List.Forall₂ Rewired bs bs') :
    declaredCommands bs' = declaredCommands bs := by
  funext ref
  rw [declaredCommands, declaredCommands]
  congr 1
  induction h with
  | nil => rfl
  | cons hb _ ih =>
    rw [List.find?_cons, List.find?_cons, hb.id_eq]
    split
    · exact congrArg some hb.commands_eq
    · exact ih

end Block

namespace Definition

variable {d d' : Definition} {b : Block} {place place' : Nat}

/-- The same block contributes the same wherever its references have the same commands. -/
theorem shares_eq_of_references (hb : d.blocks[place]? = some b) (hb' : d'.blocks[place']? = some b)
    (h : ∀ ref ∈ b.references, declaredCommands d'.blocks ref = declaredCommands d.blocks ref)
    (phase : String) : d'.shares phase place' = d.shares phase place := by
  rw [← referenced_index, ← referenced_index] at h
  rw [shares_of_getElem? hb, shares_of_getElem? hb']
  simp only [Block.lines_eq_of_references h]

/-- What a phase runs is what the blocks contribute, group by group. The contribution of a block
depends on its own fields and on the commands of the first blocks that have the identifiers it
refers to, and on nothing else in the list of blocks: in particular not on the references and groups
of other blocks. With a fallback it is a conditional of seven lines, in which the block's own
commands and those of its references stand indented, each once and in their order. -/
theorem expansion_local (hb : d.blocks[place]? = some b) :
    (∀ phase, (d.lineGroups phase).flatMap (·.2) = commandsIn d.compile.phases phase)
    ∧ (∀ (d' : Definition) place', d'.blocks[place']? = some b →
      (∀ ref ∈ b.references, declaredCommands d'.blocks ref = declaredCommands d.blocks ref) →
      ∀ phase, d'.shares phase place' = d.shares phase place)
    ∧ (∀ d' : Definition, d'.blocks[place]? = some b →
      List.Forall₂ Block.Rewired d.blocks d'.blocks →
      ∀ phase, d'.shares phase place = d.shares phase place)
    ∧ ∀ g, b.group? = some g → ∃ ls, d.shares g.phase place = [ls]
      ∧ (∀ phase, phase ≠ g.phase → d.shares phase place = [])
      ∧ ∀ fallback, b.fallback? = some fallback →
        let success := b.successCommands (declaredCommands d.blocks)
        let failure := declaredCommands d.blocks fallback
        ls = ["# " ++ g.label ++ ": " ++ b.id ++ " (with fallback)", "if"]
            ++ b.commands.map indent
            ++ ["then", indent ("echo \"" ++ g.label ++ " " ++ b.id ++ " succeeded\"")]
            ++ success.map indent
            ++ ["else", indent ("echo \"" ++ g.label ++ " " ++ b.id ++ " failed, running fallback\"")]
            ++ failure.map indent ++ ["fi"]
          ∧ ls.length = 7 + b.commands.length + failure.length + success.length := by
  refine ⟨d.flatMap_lineGroups, fun d' place' hb' => shares_eq_of_references hb hb',
    fun d' hb' hrewired => ?rewired, fun g hg => ?conditional⟩
  case rewired =>
    have hcommands := Block.declaredCommands_rewired hrewired
    exact shares_eq_of_references hb hb' fun ref _ => congrFun hcommands ref
  case conditional =>
    refine ⟨_, by rw [shares_of_group? hb hg, if_pos rfl], fun phase hphase => ?_,
      fun fallback hfallback => ?_⟩
    · rw [shares_of_group? hb hg, if_neg hphase.symm]
    · rw [Block.lines_of_fallback hfallback, Block.length_conditional, Block.conditional,
        referenced_index]
      exact ⟨rfl, rfl⟩

/-- Two blocks that refer to each other and to themselves, and a second block of one name. -/
def tangledBlocks : List Block := [
  { Block.bare "make" "custom_build_command" "build" with
    customCommand := ["make", "make check"], onFailed := some "clean", onSuccess := some "make" },
  { Block.bare "clean" "custom_build_command" "build" with
    customCommand := ["rm -r out"], onFailed := some "make", onSuccess := some "gone" },
  { Block.bare "clean" "custom_build_command" "build" with customCommand := ["exit 1"] }]

/-- The same blocks, those behind the first one without references and in another group. -/
def loosenedBlocks : List Block := tangledBlocks.mapIdx fun i b =>
  if i = 0 then b else { b with onFailed := none, onSuccess := some "make", group := "run" }

theorem expansion_local_tangled :
    tangledBlocks[0]?.isSome ∧ List.Forall₂ Block.Rewired tangledBlocks loosenedBlocks
    ∧ { empty with blocks := loosenedBlocks }.shares "build" 0
      = { empty with blocks := tangledBlocks }.shares "build" 0
    ∧ { empty with blocks := tangledBlocks }.shares "build" 0
      = [["# Block: make (with fallback)", "if", "  make", "  make check", "then",
        "  echo \"Block make succeeded\"", "  make", "  make check", "else",
        "  echo \"Block make failed, running fallback\"", "  rm -r out", "fi"]] := by
  have hrewired : List.Forall₂ Block.Rewired tangledBlocks loosenedBlocks :=
    .cons ⟨_, _, _, rfl⟩ (.cons ⟨_, _, _, rfl⟩ (.cons ⟨_, _, _, rfl⟩ .nil))
  have hb : { empty with blocks := tangledBlocks }.blocks[0]? = some tangledBlocks[0] := rfl
  obtain ⟨-, -, hlocal, hlines⟩ := expansion_local hb
  obtain ⟨ls, hls, -, hconditional⟩ := hlines .build rfl
  have heq := (hconditional "clean" rfl).1
  refine ⟨rfl, hrewired, hlocal { empty with blocks := loosenedBlocks } rfl hrewired "build", ?_⟩
  rw [show "build" = BlockGroup.build.phase from rfl, hls, heq]
  decide +kernel

end Definition

end BuildPipeline
