import BuildPipeline.BuildSpec.Compile
import BuildPipeline.Proofs.BlockIndexes

/-!
What each block contributes to a compiled definition: a block of a known group one group of lines to
one phase, and any other block nothing.
-/

namespace BuildPipeline

/-- The phase that the blocks of a group go to. -/
def BlockGroup.phase : BlockGroup → String
  | .custom => "pre_build"
  | .build => "build"
  | .test | .run => "post_build"

/-- The phases that have commands. -/
def commandPhases : List String := ["pre_build", "build", "post_build"]

/-- The commands of a phase; none of a phase that is missing. -/
def commandsIn (phases : Table String Phase) (phase : String) : List String :=
  ((Table.get? phases phase).map (·.commands)).getD []

section Blocks

variable {b : Block} {g : BlockGroup}

theorem BlockGroup.phase_mem (g : BlockGroup) : g.phase ∈ commandPhases := by
  cases g <;> decide

theorem BlockGroup.flatMap_phase (f : BlockGroup → List String) (phase : String) :
    (BlockGroup.all.filter (·.phase == phase)).flatMap f
      = if "pre_build" = phase then f .custom else if "build" = phase then f .build
        else if "post_build" = phase then f .test ++ f .run else [] := by
  have hphase : ∀ name : String, (name == phase) = decide (name = phase) := fun _ => rfl
  simp only [BlockGroup.all, List.filter_cons, List.filter_nil, BlockGroup.phase, hphase]
  by_cases hpre : "pre_build" = phase
  · subst hpre
    simp
  · by_cases hbuild : "build" = phase
    · subst hbuild
      simp
    · by_cases hpost : "post_build" = phase <;> simp [hpre, hbuild, hpost]

theorem Block.group_beq_name : (b.group == g.name) = decide (b.group? = some g) := by
  rw [Bool.eq_iff_iff, beq_iff_eq, decide_eq_true_iff]
  constructor
  · intro h
    rw [Block.group?, h]
    cases g <;> rfl
  · intro h
    have hname := List.find?_some (p := fun g : BlockGroup => g.name == b.group) h
    exact (beq_iff_eq.1 hname).symm

theorem Block.lines_ne_nil (b : Block) (label : String) (index : Table String Block) :
    b.lines label index ≠ [] := by
  rw [Block.lines]
  split <;> simp [Block.conditional]

end Blocks

/-- The entry of a list that carries a place is the one that stands there. -/
theorem filter_zipIdx {α : Type} (as : List α) (start place : Nat) :
    (as.zipIdx start).filter (·.2 == start + place)
      = (as[place]?.map (·, start + place)).toList := by
  induction as generalizing start place with
  | nil => rfl
  | cons a as ih =>
    rw [List.zipIdx_cons, List.filter_cons]
    cases place with
    | zero =>
      have hafter (e : α × Nat) (he : e ∈ as.zipIdx (start + 1)) : e.2 ≠ start := by
        have hle := List.le_snd_of_mem_zipIdx he
        omega
      simpa using fun a i hmem => hafter (a, i) hmem
    | succ place =>
      rw [if_neg (by simp), Nat.add_comm place, ← Nat.add_assoc, ih, Nat.add_comm 1 place,
        List.getElem?_cons_succ]

namespace Definition

/-- The line groups of a phase, each with the place of its block. -/
def lineGroups (d : Definition) (phase : String) : List (Nat × List String) :=
  (BlockGroup.all.filter (·.phase == phase)).flatMap fun g =>
    (d.blocks.zipIdx.filter (·.1.group == g.name)).map fun e =>
      (e.2, e.1.lines g.label (Block.index d.blocks))

/-- The line groups that the block at a place contributes to a phase. -/
def shares (d : Definition) (phase : String) (place : Nat) : List (List String) :=
  ((d.lineGroups phase).filter (·.1 == place)).map (·.2)

/-- Whether the block at a place contributes no line to any phase. -/
def isSilent (d : Definition) (place : Nat) : Bool :=
  commandPhases.all fun phase => (d.shares phase place).flatten.isEmpty

section Phases

variable {d : Definition} {t : Table String Phase} {name phase policy : String}
  {cs : List String}

theorem commandsIn_commandPhase (h : Table.get? t name = none) :
    commandsIn (commandPhase name policy cs ++ t) phase
      = if name = phase then cs else commandsIn t phase := by
  rw [commandPhase]
  by_cases hname : name = phase
  · subst hname
    cases cs with
    | nil => simp [commandsIn, h]
    | cons c cs => simp [commandsIn, Table.get?]
  · rw [if_neg hname]
    split
    · rfl
    · simp [commandsIn, Table.get?, hname]

theorem get?_commandPhase (h : name ≠ phase) :
    Table.get? (commandPhase name policy cs) phase = none := by
  rw [commandPhase]
  split
  · rfl
  · simp [Table.get?, h]

theorem commandsIn_installPhase (h : Table.get? t "install" = none) :
    commandsIn (d.installPhase ++ t) phase = commandsIn t phase := by
  rw [installPhase]
  split
  · split
    · rfl
    · by_cases hphase : "install" = phase
      · subst hphase
        simp [commandsIn, Table.get?, h]
      · simp [commandsIn, Table.get?, hphase]
  · rfl

/-- The commands of a phase are the lines of its groups. -/
theorem commandsIn_compile (d : Definition) (phase : String) : commandsIn d.compile.phases phase
    = (BlockGroup.all.filter (·.phase == phase)).flatMap d.groupLines := by
  rw [BlockGroup.flatMap_phase, compile, ← List.append_nil (_ ++ _)]
  simp only [List.append_assoc]
  rw [commandsIn_installPhase (by simp [Table.get?_append, get?_commandPhase]),
    commandsIn_commandPhase (by simp [Table.get?_append, get?_commandPhase]),
    commandsIn_commandPhase (by simp [get?_commandPhase]), commandsIn_commandPhase rfl]
  rfl

end Phases

section Groups

variable {d : Definition} {b : Block} {g : BlockGroup} {place : Nat} {phase : String}

/-- The commands of a phase are its line groups, one after the other. -/
theorem flatMap_lineGroups (d : Definition) (phase : String) :
    (d.lineGroups phase).flatMap (·.2) = commandsIn d.compile.phases phase := by
  rw [commandsIn_compile, lineGroups, List.flatMap_assoc]
  congr 1
  funext g
  have hblocks : d.blocks.filter (·.group == g.name)
      = (d.blocks.zipIdx.filter (·.1.group == g.name)).map Prod.fst := by
    conv_lhs => rw [← List.zipIdx_map_fst 0 d.blocks]
    exact List.filter_map
  rw [groupLines, hblocks, List.flatMap_map, List.flatMap_map]

/-- What the block at a place contributes, group by group. -/
theorem shares_of_getElem? (hb : d.blocks[place]? = some b) (phase : String) :
    d.shares phase place = (BlockGroup.all.filter (·.phase == phase)).flatMap fun g =>
      if b.group? = some g then [b.lines g.label (Block.index d.blocks)] else [] := by
  rw [shares, lineGroups, List.filter_flatMap, List.map_flatMap]
  congr 1
  funext g
  have hplace : (d.blocks.zipIdx.filter (·.1.group == g.name)).filter (·.2 == place)
      = [(b, place)].filter (·.1.group == g.name) := by
    have hat := filter_zipIdx d.blocks 0 place
    rw [Nat.zero_add, hb] at hat
    rw [List.filter_filter, List.filter_congr fun e _ => Bool.and_comm _ _, ← List.filter_filter,
      hat]
    rfl
  rw [List.filter_map, List.map_map]
  change List.map _ (List.filter (fun e : Block × Nat => e.2 == place) _) = _
  rw [hplace, List.filter_cons, Block.group_beq_name]
  by_cases hg : b.group? = some g <;> simp [hg]

theorem shares_of_group? (hb : d.blocks[place]? = some b) (hg : b.group? = some g)
    (phase : String) : d.shares phase place
      = if g.phase = phase then [b.lines g.label (Block.index d.blocks)] else [] := by
  rw [shares_of_getElem? hb, hg]
  by_cases hphase : g.phase = phase
  · subst hphase
    cases g <;> rfl
  · rw [if_neg hphase, List.flatMap_eq_nil_iff]
    intro g' hg'
    have hphase' : g'.phase = phase := by simpa using (List.mem_filter.1 hg').2
    refine if_neg fun h => hphase ?_
    rw [Option.some.inj h, hphase']

theorem shares_of_group?_eq_none (hb : d.blocks[place]? = some b) (hg : b.group? = none)
    (phase : String) : d.shares phase place = [] := by
  rw [shares_of_getElem? hb, hg]
  simp

/-- A block is silent exactly if its group is not known. -/
theorem isSilent_iff (hb : d.blocks[place]? = some b) :
    d.isSilent place = b.group?.isNone := by
  cases hg : b.group? with
  | none => simp [isSilent, shares_of_group?_eq_none hb hg]
  | some g =>
    rw [Option.isNone_some, Bool.eq_false_iff, isSilent]
    intro hall
    have hempty := List.all_eq_true.1 hall g.phase (BlockGroup.phase_mem g)
    rw [shares_of_group? hb hg, if_pos rfl] at hempty
    simp [Block.lines_ne_nil] at hempty

/-- Every line group comes from a block of the definition. -/
theorem lt_of_mem_lineGroups {e : Nat × List String} (he : e ∈ d.lineGroups phase) :
    e.1 < d.blocks.length := by
  obtain ⟨g, -, he⟩ := List.mem_flatMap.1 he
  obtain ⟨block, hblock, rfl⟩ := List.mem_map.1 he
  exact List.snd_lt_of_mem_zipIdx (List.mem_filter.1 hblock).1

end Groups

end Definition

end BuildPipeline
