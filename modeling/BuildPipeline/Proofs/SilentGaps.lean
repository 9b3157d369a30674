import BuildPipeline.Proofs.LineGroups

/-!
What validation says about the gaps that a compiled definition passes over: blocks that contribute
no lines, and references that contribute no commands.
-/

namespace BuildPipeline

theorem setReference_eq_some {r : Option String} {ref : String} (h : setReference r = some ref) :
    r = some ref := by
  cases r with
  | none => nomatch h
  | some s => exact (Option.filter_eq_some_iff.1 h).1

namespace Block

/-- The references of a block that its lines expand. -/
def expansions (b : Block) : List (ReferenceField × String) :=
  match setReference b.onFailed, b.isPackageManager with
  | some fallback, false =>
    (setReference b.onSuccess).toList.map (.onSuccess, ·) ++ [(.onFailed, fallback)]
  | _, _ => []

/-- What the expanded reference in a field contributes. -/
def expanded (b : Block) (index : Table String Block) (field : ReferenceField) : List String :=
  (b.expansions.filter (·.1 == field)).flatMap fun e => referenced index e.2

/-- What a block refers to in a field. -/
def reference (b : Block) : ReferenceField → Option String
  | .onSuccess => b.onSuccess
  | .onFailed => b.onFailed

variable {b : Block}

/-- The references that a block expands are those of its conditional. -/
theorem mem_expansions {e : ReferenceField × String} (he : e ∈ b.expansions) :
    b.reference e.1 = some e.2 ∧ b.expansions.filter (·.1 == e.1) = [e] := by
  rw [expansions] at he ⊢
  split at he
  · rename_i fallback hfailed hmanager
    rcases List.mem_append.1 he with he | he
    · obtain ⟨s, hs, rfl⟩ := List.mem_map.1 he
      have hsuccess := Option.mem_toList.1 hs
      rw [hsuccess]
      exact ⟨setReference_eq_some hsuccess, rfl⟩
    · cases List.mem_singleton.1 he
      refine ⟨setReference_eq_some hfailed, ?_⟩
      cases setReference b.onSuccess <;> rfl
  · nomatch he

/-- A conditional shows the commands of the references that it expands; the rest of it does not
depend on other blocks. -/
theorem lines_frame (b : Block) (label : String) : ∃ before between after, ∀ index,
    b.lines label index = before ++ (b.expanded index .onSuccess).map indent ++ between
      ++ (b.expanded index .onFailed).map indent ++ after := by
  unfold lines
  split
  · rename_i fallback hfailed hmanager
    -- Whatever `on_success` is, what it contributes stands between the two messages.
    have hsuccess (index : Table String Block) : b.expanded index .onSuccess
        = ((setReference b.onSuccess).map (referenced index)).getD [] := by
      rw [expanded, expansions, hfailed, hmanager]
      cases setReference b.onSuccess <;> simp
    have hfallback (index : Table String Block) :
        b.expanded index .onFailed = referenced index fallback := by
      rw [expanded, expansions, hfailed, hmanager]
      cases setReference b.onSuccess <;> simp
    refine ⟨["# " ++ label ++ ": " ++ b.id ++ " (with fallback)", "if"] ++ b.commands.map indent
      ++ ["then", indent ("echo \"" ++ label ++ " " ++ b.id ++ " succeeded\"")],
      ["else", indent ("echo \"" ++ label ++ " " ++ b.id ++ " failed, running fallback\"")],
      ["fi"], fun index => ?_⟩
    rw [hsuccess, hfallback]
    rfl
  · rename_i hplain
    have hnone (index : Table String Block) (field : ReferenceField) :
        b.expanded index field = [] := by
      rw [expanded, expansions]
      split
      · exact (hplain _ ‹_› ‹_›).elim
      · rfl
    refine ⟨["# " ++ label ++ ": " ++ b.id]
      ++ (if b.isPackageManager then ["# Package manager - fail fast on error"] else [])
      ++ b.commands, [], [], fun index => ?_⟩
    rw [hnone, hnone, List.map_nil, List.append_nil, List.append_nil, List.append_nil,
      List.append_nil]

end Block

/-- Whether an issue is about a group that is not known. -/
def Issue.isUnknownGroup (i : Issue) : Bool := i.code == "unknown_group_type"

/-- Counting the places of a list is counting its elements. -/
theorem countP_range {α : Type} (as : List α) (p : α → Bool) (q : Nat → Bool)
    (h : ∀ i a, as[i]? = some a → q i = p a) : (List.range as.length).countP q = as.countP p := by
  induction as generalizing q with
  | nil => rfl
  | cons a as ih =>
    rw [List.length_cons, List.range_succ_eq_map, List.countP_cons, List.countP_map,
      ih (q ∘ Nat.succ) fun i a' ha' => h (i + 1) a' ha', List.countP_cons, h 0 a rfl]

namespace Definition

variable {d : Definition} {r : Registry Block} {b : Block} {bs : List Block}

section Counts

theorem countP_isSilent (d : Definition) : (List.range d.blocks.length).countP d.isSilent
    = d.blocks.countP (·.group?.isNone) :=
  countP_range d.blocks _ d.isSilent fun _ _ hb => isSilent_iff hb

theorem countP_blockIssues : (blockIssues r b).2.countP Issue.isUnknownGroup
    = if b.group?.isNone then 1 else 0 := by
  have hgroup : (if b.group?.isNone then [Issue.unknownGroup b.id b.group] else []).countP
      Issue.isUnknownGroup = if b.group?.isNone then 1 else 0 := by
    split <;> rfl
  have htype : (if b.type?.isNone then [Issue.unknownBlockType b.id b.type] else []).countP
      Issue.isUnknownGroup = 0 := by
    split <;> rfl
  rw [blockIssues]
  rcases r.add (.str b.id) b with _ | _
  all_goals rw [List.countP_append, List.countP_append, htype, hgroup]
  · rename_i e
    cases e <;> exact Nat.zero_add _
  · exact Nat.zero_add _

theorem countP_registerFrom : (registerFrom r bs).2.countP Issue.isUnknownGroup
    = bs.countP (·.group?.isNone) := by
  induction bs generalizing r with
  | nil => rfl
  | cons b bs ih =>
    rw [registerFrom_cons, List.countP_append, countP_blockIssues, ih,
      List.countP_cons, Nat.add_comm]

theorem countP_unresolvedIssue (field : ReferenceField) (ref : Option String) :
    (unresolvedIssue r b field ref).countP Issue.isUnknownGroup = 0 := by
  cases ref with
  | none => rfl
  | some ref =>
    rw [unresolvedIssue.eq_def]
    dsimp only
    split <;> rfl

/-- As many issues of unknown groups as blocks without a known group. -/
theorem countP_issues (d : Definition) :
    d.issues.countP Issue.isUnknownGroup = d.blocks.countP (·.group?.isNone) := by
  have hreferences (r : Registry Block) : (d.blocks.flatMap (referenceIssues r)).countP
      Issue.isUnknownGroup = 0 := by
    rw [List.countP_eq_zero]
    intro i hi
    obtain ⟨b, -, hi⟩ := List.mem_flatMap.1 hi
    rcases List.mem_append.1 hi with hi | hi
    · exact List.countP_eq_zero.1 (countP_unresolvedIssue _ _) i hi
    · exact List.countP_eq_zero.1 (countP_unresolvedIssue _ _) i hi
  rw [issues, List.countP_append, countP_registerFrom, hreferences, Nat.add_zero]

end Counts

section References

variable {field : ReferenceField} {ref : String}

theorem contains_registerFrom_empty
    (h : (registerFrom .empty bs).1.contains ref) : ∃ t ∈ bs, t.id = ref := by
  rcases contains_registerFrom h with h | h
  · nomatch h
  · exact h

theorem mem_referenceIssues (href : b.reference field = some ref)
    (hunknown : r.contains ref = false) :
    Issue.unresolved b.id field ref ∈ referenceIssues r b := by
  have hmem : Issue.unresolved b.id field ref ∈ unresolvedIssue r b field (b.reference field) := by
    rw [href, unresolvedIssue, hunknown]
    exact List.mem_singleton_self _
  cases field with
  | onSuccess => exact List.mem_append_left _ hmem
  | onFailed => exact List.mem_append_right _ hmem

theorem mem_issues_of_reference (hb : b ∈ d.blocks) (href : b.reference field = some ref)
    (hmissing : Table.get? (Block.index d.blocks) ref = none) :
    Issue.unresolved b.id field ref ∈ d.issues := by
  have hunknown : (registerFrom .empty d.blocks).1.contains ref = false := by
    rw [Bool.eq_false_iff]
    intro h
    obtain ⟨t, ht, rfl⟩ := contains_registerFrom_empty h
    rw [get?_index, List.find?_eq_none] at hmissing
    exact hmissing t ht (beq_self_eq_true t.id)
  rw [issues]
  exact List.mem_append_right _ (List.mem_flatMap.2 ⟨b, hb, mem_referenceIssues href hunknown⟩)

theorem filter_of_find? {t : Block} (h : bs.Pairwise fun b b' => b.id ≠ b'.id)
    (ht : bs.find? (·.id == ref) = some t) : bs.filter (·.id == ref) = [t] := by
  induction bs with
  | nil => cases ht
  | cons b bs ih =>
    obtain ⟨hb, hbs⟩ := List.pairwise_cons.1 h
    rw [List.find?_cons] at ht
    rw [List.filter_cons]
    by_cases hid : b.id = ref
    · subst hid
      have hothers : bs.filter (·.id == b.id) = [] := by
        simpa [List.filter_eq_nil_iff] using fun b' hb' => (hb b' hb').symm
      rw [beq_self_eq_true] at ht
      rw [beq_self_eq_true, if_pos rfl, hothers, Option.some.inj ht]
    · rw [beq_false_of_ne hid] at ht ⊢
      exact ih hbs ht

/-- Where nothing is reported, a reference names one block, which the index finds. -/
theorem filter_eq_singleton (h : d.issues = []) (hb : b ∈ d.blocks)
    (href : b.reference field = some ref) :
    ∃ t, d.blocks.filter (·.id == ref) = [t]
      ∧ Table.get? (Block.index d.blocks) ref = some t := by
  cases ht : Table.get? (Block.index d.blocks) ref with
  | none =>
    have hissue := mem_issues_of_reference hb href ht
    rw [h] at hissue
    cases hissue
  | some t =>
    rw [get?_index] at ht
    rw [issues] at h
    have hdistinct := (distinct_of_registerFrom (List.append_eq_nil_iff.1 h).1).2
    exact ⟨t, filter_of_find? hdistinct ht, rfl⟩

end References

end Definition

section Gaps

open Definition

/-- The commands of the compiled phases are line groups, each from the block at its place. As many
blocks contribute none as there are issues of unknown groups, and every other block contributes one
group of lines to one phase. The lines of a block show the references that it expands, and depend on
the index nowhere else. An expanded reference that the index does not know is reported; and if
nothing is reported, every one of them contributes the commands of the only block that it names. -/
theorem issues_cover_silent_gaps (d : Definition) :
    (∀ phase, commandsIn d.compile.phases phase = (d.lineGroups phase).flatMap (·.2)
      ∧ ∀ e ∈ d.lineGroups phase, e.1 < d.blocks.length)
    ∧ (List.range d.blocks.length).countP d.isSilent
      = d.issues.countP (·.code == "unknown_group_type")
    ∧ (∀ place < d.blocks.length, d.isSilent place = false →
      ∃ b g, d.blocks[place]? = some b ∧ b.group? = some g ∧ g.phase ∈ commandPhases
        ∧ b.lines g.label (Block.index d.blocks) ≠ []
        ∧ ∀ phase, d.shares phase place
          = if g.phase = phase then [b.lines g.label (Block.index d.blocks)] else [])
    ∧ (∀ (b : Block) (label : String), ∃ before between after, ∀ index,
      b.lines label index = before ++ (b.expanded index .onSuccess).map indent ++ between
        ++ (b.expanded index .onFailed).map indent ++ after)
    ∧ (∀ b ∈ d.blocks, ∀ e ∈ b.expansions, Table.get? (Block.index d.blocks) e.2 = none →
      Issue.unresolved b.id e.1 e.2 ∈ d.issues)
    ∧ (d.issues = [] → ∀ b ∈ d.blocks, ∀ e ∈ b.expansions, ∃ t,
      d.blocks.filter (·.id == e.2) = [t]
        ∧ b.expanded (Block.index d.blocks) e.1 = t.commands) := by
  refine ⟨fun phase => ⟨(flatMap_lineGroups d phase).symm, fun e => lt_of_mem_lineGroups⟩,
    (countP_isSilent d).trans (countP_issues d).symm, ?contribution, Block.lines_frame, ?reported,
    ?expanded⟩
  case contribution =>
    intro place hplace hspeaks
    obtain ⟨b, hb⟩ : ∃ b, d.blocks[place]? = some b := ⟨_, List.getElem?_eq_getElem hplace⟩
    obtain ⟨g, hg⟩ : ∃ g, b.group? = some g := by
      rw [isSilent_iff hb, Option.isNone_eq_false_iff] at hspeaks
      exact Option.isSome_iff_exists.1 hspeaks
    exact ⟨b, g, hb, hg, g.phase_mem, b.lines_ne_nil _ _, shares_of_group? hb hg⟩
  case reported =>
    intro b hb e he hmissing
    exact mem_issues_of_reference hb (Block.mem_expansions he).1 hmissing
  case expanded =>
    intro hvalid b hb e he
    obtain ⟨href, honly⟩ := Block.mem_expansions he
    obtain ⟨t, ht, hfound⟩ := filter_eq_singleton hvalid hb href
    refine ⟨t, ht, ?_⟩
    rw [Block.expanded, honly, List.flatMap_singleton, referenced, hfound]
    rfl

/-- A build with a fallback. -/
def guardedBuild : Definition :=
  { Definition.empty with
    blocks := [
      { Block.bare "compile" "custom_build_command" "build" with
        onFailed := some "clean", customCommand := ["make"] },
      { Block.bare "clean" "custom_build_command" "custom" with
        customCommand := ["make clean"] }] }

/-- A build whose fallback is missing, next to a block of no known group. -/
def unguardedBuild : Definition :=
  { Definition.empty with
    blocks := [
      { Block.bare "compile" "custom_build_command" "build" with
        onFailed := some "clean", customCommand := ["make"] },
      Block.bare "deploy" "custom_run_command" "release"] }

/-- The fallback of the first build contributes its commands. Of the second, one block contributes
no lines and the missing fallback is reported. -/
theorem issues_cover_silent_gaps_of_builds :
    guardedBuild.issues = []
    ∧ (∃ t, guardedBuild.blocks.filter (·.id == "clean") = [t] ∧ t.commands = ["make clean"])
    ∧ unguardedBuild.issues.countP (·.code == "unknown_group_type") = 1
    ∧ (List.range unguardedBuild.blocks.length).countP unguardedBuild.isSilent = 1
    ∧ Issue.unresolved "compile" .onFailed "clean" ∈ unguardedBuild.issues := by
  have hvalid : guardedBuild.issues = [] := by decide
  have hguarded := issues_cover_silent_gaps guardedBuild
  have hunguarded := issues_cover_silent_gaps unguardedBuild
  obtain ⟨t, ht, hcommands⟩ := hguarded.2.2.2.2.2 hvalid _ List.mem_cons_self (.onFailed, "clean")
    (by decide)
  have hone : unguardedBuild.issues.countP (·.code == "unknown_group_type") = 1 := by decide
  refine ⟨hvalid, ⟨t, ht, hcommands.symm.trans (by decide)⟩, hone, hunguarded.2.1.trans hone, ?_⟩
  exact hunguarded.2.2.2.2.1 _ List.mem_cons_self (.onFailed, "clean") (by decide) (by decide)

end Gaps

end BuildPipeline
