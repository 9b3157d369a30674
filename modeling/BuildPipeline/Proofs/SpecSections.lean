import BuildPipeline.Proofs.Interleavings

/-!
What the document of a build specification shows, however its phases were made. Sections and phases
stand in their own order, none of them is empty, and what was in a phase is all that counts.
-/

namespace BuildPipeline

theorem Value.truthy_ofTable {t : Table String Value} : (Value.ofTable t).truthy ↔ t ≠ [] := by
  cases t <;> simp [ofTable, truthy]

namespace Phase

/-- The commands of a phase with their policy, which does not stand without them. -/
def commandParts (p : Phase) : Table String Value :=
  if p.commands = [] then []
  else ("commands", .ofStrings p.commands)
    :: Block.textField "on-failure" (p.onFailure.filter (· != ""))

variable (p : Phase)

theorem document_eq : p.document
    = .ofTable (BuildSpec.textsPart "runtime-versions" p.runtimes ++ p.commandParts) := by
  obtain ⟨commands, onFailure, runtimes⟩ := p
  rw [document, commandParts]
  rcases onFailure with _ | policy
  · cases commands <;> cases runtimes <;> rfl
  · by_cases h : policy = "" <;> cases commands <;> cases runtimes <;>
      simp [h, BuildSpec.textsPart, BuildSpec.part, Table.mapValues, Block.textField,
        Value.ofTexts, Option.filter]

theorem get?_textsPart (t : Table String String) (name k : String) :
    Table.get? (BuildSpec.textsPart name t) k
      = if name = k ∧ t ≠ [] then some (.ofTexts t) else none := by
  rw [BuildSpec.textsPart, BuildSpec.get?_part]
  simp [Table.mapValues, Value.ofTexts]

/-- A policy is shown next to commands, unless it is empty. -/
theorem get_policy : p.document.get "on-failure"
    = .ok (if p.commands = [] then none else (p.onFailure.filter (· != "")).map .str) := by
  rw [document_eq, get_ofTable, Table.get?_append, get?_textsPart, commandParts]
  cases p.commands <;> simp [Table.get?, get?_textField]

theorem truthy_document : p.document.truthy ↔ p.isEmpty = false := by
  obtain ⟨commands, onFailure, runtimes⟩ := p
  rw [document_eq, Value.truthy_ofTable, commandParts]
  cases commands <;> cases runtimes <;> simp [BuildSpec.textsPart, BuildSpec.part, Table.mapValues,
    isEmpty]

theorem isEmpty_eq_false : p.isEmpty = false ↔ p.commands ≠ [] ∨ p.runtimes ≠ [] := by
  rw [isEmpty, Bool.and_eq_false_iff]
  simp

end Phase

namespace BuildSpec

/-- The sections of a document in their order. -/
def sectionOrder : List String := ["version", "phases", "artifacts", "env", "cache", "reports"]

/-- A change of the phase of a name. A phase that is only asked for changes by `id`. -/
structure PhaseEdit where
  name : String
  change : Phase → Phase

/-- An edit that is refused leaves the specification as it was. -/
def afterEdit (s : BuildSpec) (e : PhaseEdit) : BuildSpec :=
  (s.editPhase e.name e.change).toOption.getD s

def edited (s : BuildSpec) (es : List PhaseEdit) : BuildSpec := es.foldl afterEdit s

/-- The contents of a phase. A phase that is missing has those of an empty one. -/
def phaseAt (s : BuildSpec) (name : String) : Phase := Table.getD s.phases name .empty

/-- The same contents in every known phase, and the same in all that stands beside the phases. -/
structure Agrees (s t : BuildSpec) : Prop where
  phases : ∀ name ∈ phaseOrder, t.phaseAt name = s.phaseAt name
  beside : { t with phases := s.phases } = s

variable {s t : BuildSpec} {name : String} {v : Value} {e : PhaseEdit}

section Edits

theorem editPhase_of_mem (h : name ∈ phaseOrder) (f : Phase → Phase) : s.editPhase name f
    = .ok { s with phases := Table.modify s.phases name .empty f } := by
  rw [editPhase, modifyPhase, if_pos (List.contains_iff_mem.2 h)]

/-- A name that is no phase is an error. -/
theorem editPhase_of_not_mem (h : name ∉ phaseOrder) (f : Phase → Phase) :
    s.editPhase name f = .error (.missingKey (unknownPhase name)) := by
  rw [editPhase, modifyPhase, if_neg (by rwa [List.contains_iff_mem])]

theorem afterEdit_of_mem (h : e.name ∈ phaseOrder) : s.afterEdit e
    = { s with phases := Table.modify s.phases e.name .empty e.change } := by
  rw [afterEdit, editPhase_of_mem h]
  rfl

theorem afterEdit_of_not_mem (h : e.name ∉ phaseOrder) : s.afterEdit e = s := by
  rw [afterEdit, editPhase_of_not_mem h]
  rfl

/-- An edit changes the contents of its own phase and of no other. -/
theorem phaseAt_afterEdit (h : name ∈ phaseOrder) (s : BuildSpec) (e : PhaseEdit) :
    (s.afterEdit e).phaseAt name
      = if e.name = name then e.change (s.phaseAt name) else s.phaseAt name := by
  by_cases hname : e.name = name
  · subst hname
    rw [afterEdit_of_mem h, phaseAt, Table.getD_modify, if_pos (beq_self_eq_true _), if_pos rfl,
      phaseAt]
  · rw [if_neg hname]
    by_cases he : e.name ∈ phaseOrder
    · rw [afterEdit_of_mem he, phaseAt, Table.getD_modify, if_neg (by simpa using hname), phaseAt]
    · rw [afterEdit_of_not_mem he]

theorem beside_afterEdit (s : BuildSpec) (e : PhaseEdit) (phases : Table String Phase) :
    { s.afterEdit e with phases } = { s with phases } := by
  by_cases he : e.name ∈ phaseOrder
  · rw [afterEdit_of_mem he]
  · rw [afterEdit_of_not_mem he]

/-- After any edits a phase has what its own edits made of it, in their order. -/
theorem phaseAt_edited (h : name ∈ phaseOrder) (s : BuildSpec) (es : List PhaseEdit) :
    (s.edited es).phaseAt name
      = (es.filter (·.name = name)).foldl (fun p e => e.change p) (s.phaseAt name) := by
  induction es generalizing s with
  | nil => rfl
  | cons e es ih =>
    rw [edited, List.foldl_cons, ← edited, ih, phaseAt_afterEdit h, List.filter_cons]
    by_cases hname : e.name = name <;> simp [hname]

theorem beside_edited (s : BuildSpec) (es : List PhaseEdit) (phases : Table String Phase) :
    { s.edited es with phases } = { s with phases } := by
  induction es generalizing s with
  | nil => rfl
  | cons e es ih => rw [edited, List.foldl_cons, ← edited, ih, beside_afterEdit]

end Edits

section Shown

theorem shownPhases_eq (s : BuildSpec) : s.shownPhases = phaseOrder.filterMap fun name =>
    if (s.phaseAt name).isEmpty then none else some (name, (s.phaseAt name).document) := by
  rw [shownPhases]
  congr 1
  funext name
  rw [phaseAt, Table.getD]
  cases Table.get? s.phases name with
  | none => rfl
  | some p => rfl

/-- Specifications that agree are written alike. -/
theorem Agrees.document_eq (h : s.Agrees t) : t.document = s.document := by
  have hphases : t.shownPhases = s.shownPhases := by
    rw [shownPhases_eq, shownPhases_eq]
    exact List.filterMap_congr fun name hname => by rw [h.phases name hname]
  rw [document, document, hphases, ← h.beside]

theorem keys_part (name : String) (t : Table String Value) :
    (Table.keys (part name t)).Sublist [name] := by
  rw [part]
  split
  · exact List.nil_sublist _
  · exact List.Sublist.refl _

theorem keys_listPart (name field : String) (ss : List String) :
    (Table.keys (listPart name field ss)).Sublist [name] := by
  rw [listPart]
  split
  · exact List.nil_sublist _
  · exact List.Sublist.refl _

/-- The version comes first; the other sections that there are follow in their order. -/
theorem keys_document (s : BuildSpec) : ∃ names, Table.keys s.document = names.map Scalar.str
    ∧ ("version" :: names.tail = names) ∧ names.Sublist sectionOrder := by
  have hkeys (t : Table String Value) : Table.keys (Dict.of t) = (Table.keys t).map Scalar.str := by
    simp [Dict.of, Table.keys]
  rw [document, hkeys]
  refine ⟨_, rfl, rfl, ?_⟩
  simp only [Table.keys_append]
  exact (((((List.Sublist.refl ["version"]).append (keys_part "phases" _)).append
    (keys_listPart "artifacts" _ _)).append (keys_part "env" _)).append
      (keys_listPart "cache" _ _)).append (keys_part "reports" _)

theorem keys_shownPhases (s : BuildSpec) : (Table.keys s.shownPhases).Sublist phaseOrder := by
  rw [shownPhases_eq]
  refine Table.keys_filterMap_sublist fun name e he => ?_
  split at he
  · cases he
  · cases he
    rfl

theorem field_document (s : BuildSpec) (name : String) : Dict.field s.document name
    = ((Table.get? [("version", Value.str s.version)] name).or
      (Table.get? (part "phases" s.shownPhases) name)).or
      ((Table.get? (listPart "artifacts" "files" s.artifacts) name).or
        ((Table.get? (part "env" (textsPart "variables" s.environment
            ++ textsPart "secrets-manager" s.secrets)) name).or
          ((Table.get? (listPart "cache" "paths" s.cachePaths) name).or
            (Table.get? (part "reports" (s.reports.mapValues shownReport)) name)))) := by
  rw [document, Dict.field, Value.get?_of]
  simp only [Table.get?_append, Option.or_assoc]

theorem truthy_of_part {t : Table String Value} {k : String}
    (h : Table.get? (part name t) k = some v) : v.truthy := by
  rw [get?_part] at h
  split at h
  · rename_i hpart
    cases h
    exact Value.truthy_ofTable.2 hpart.2
  · cases h

theorem truthy_of_listPart {field k : String} {ss : List String}
    (h : Table.get? (listPart name field ss) k = some v) : v.truthy := by
  rw [get?_listPart] at h
  split at h
  · cases h
    rfl
  · cases h

/-- A section besides the version is never empty. -/
theorem truthy_of_field (hname : name ≠ "version") (h : Dict.field s.document name = some v) :
    v.truthy := by
  have hversion : Table.get? [("version", Value.str s.version)] name = none := by
    simp [Table.get?, hname.symm]
  rw [field_document, hversion, Option.none_or] at h
  simp only [Option.or_eq_some_iff] at h
  rcases h with h | ⟨-, h | ⟨-, h | ⟨-, h | ⟨-, h⟩⟩⟩⟩
  · exact truthy_of_part h
  · exact truthy_of_listPart h
  · exact truthy_of_part h
  · exact truthy_of_listPart h
  · exact truthy_of_part h

end Shown

section Phases

/-- A phase is shown if it is a known one with something in it. -/
theorem shownPhase_of (s : BuildSpec) (name : String) : s.shownPhase name
    = if name ∈ phaseOrder ∧ (s.phaseAt name).isEmpty = false
      then some (s.phaseAt name).document else none := by
  have hshown : s.shownPhases = phaseOrder.filterMap fun name =>
      (if (s.phaseAt name).isEmpty then none else some (s.phaseAt name).document).map (name, ·) := by
    rw [shownPhases_eq]
    congr 1
    funext name
    split <;> rfl
  rw [shownPhase_eq, hshown, Table.get?_filterMap]
  by_cases hname : name ∈ phaseOrder <;> cases (s.phaseAt name).isEmpty <;> simp [hname]

/-- A specification whose document shows what is in it: the version and then the sections that are
not empty, among them the known phases with commands or runtimes, all in their own order. -/
structure Sectioned (s : BuildSpec) : Prop where
  keys : ∃ names, Table.keys s.document = names.map Scalar.str ∧ "version" :: names.tail = names
    ∧ names.Sublist sectionOrder
  filled : ∀ name v, name ≠ "version" → Dict.field s.document name = some v → v.truthy
  phases : ∃ t, Dict.field s.document "phases" = (if t = [] then none else some (.ofTable t))
    ∧ (Table.keys t).Sublist phaseOrder
  phase : ∀ name, (s.shownPhase name).isSome ↔ name ∈ phaseOrder
    ∧ ((s.phaseAt name).commands ≠ [] ∨ (s.phaseAt name).runtimes ≠ [])
  phaseFilled : ∀ name v, s.shownPhase name = some v → v.truthy
  policy : ∀ name v, s.shownPhase name = some v → v.get "on-failure"
    = .ok (if (s.phaseAt name).commands = [] then none
      else ((s.phaseAt name).onFailure.filter (· != "")).map .str)

theorem shownPhase_eq_some : s.shownPhase name = some v ↔ (name ∈ phaseOrder
    ∧ (s.phaseAt name).isEmpty = false) ∧ (s.phaseAt name).document = v := by
  rw [shownPhase_of]
  split <;> simp_all

theorem sectioned (s : BuildSpec) : s.Sectioned where
  keys := s.keys_document
  filled _ _ := truthy_of_field
  phases := ⟨s.shownPhases, s.field_phases, s.keys_shownPhases⟩
  phase name := by
    rw [shownPhase_of, ← Phase.isEmpty_eq_false]
    split <;> simp_all
  phaseFilled name v hv := by
    obtain ⟨⟨-, hfilled⟩, rfl⟩ := shownPhase_eq_some.1 hv
    exact (Phase.truthy_document _).2 hfilled
  policy name v hv := by
    obtain ⟨-, rfl⟩ := shownPhase_eq_some.1 hv
    exact Phase.get_policy _

/-- Edits of three phases, one of which is left with a policy alone, and of a name that is none. -/
def nightlyEdits : List PhaseEdit := [
  ⟨"build", fun p => { p with commands := p.commands ++ ["make"] }⟩, ⟨"deploy", id⟩,
  ⟨"post_build", fun p => { p with onFailure := some "CONTINUE" }⟩,
  ⟨"install", fun p => { p with runtimes := [("nodejs", "20")] }⟩,
  ⟨"build", fun p => { p with onFailure := some "ABORT" }⟩]

/-- A specification that has a phase of an unknown name from the start. -/
def strayPhase : BuildSpec := { empty with phases := [("deploy", ⟨["ship"], none, []⟩)] }

end Phases

end BuildSpec

end BuildPipeline
