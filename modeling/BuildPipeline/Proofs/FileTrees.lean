import BuildPipeline.Files.Tree
import BuildPipeline.Proofs.TableLaws

/-! Laws of file trees: what is made by writing a file, and where a path without a step up leads. -/

namespace BuildPipeline.Files.Tree

variable {α : Type} {t : Tree α} {folder place p q : Place} {ps : List Place} {ss : List String}
  {a : α}

theorem mem_above : p ∈ above place ↔ p <+: place ∧ p ≠ place := by
  simp only [above, List.mem_map, List.mem_range]
  constructor
  · rintro ⟨n, hn, rfl⟩
    refine ⟨List.take_prefix n place, fun h => ?_⟩
    have hlength := congrArg List.length h
    rw [List.length_take] at hlength
    omega
  · rintro ⟨hp, hne⟩
    refine ⟨p.length, ?_, (List.prefix_iff_eq_take.1 hp).symm⟩
    exact Nat.lt_of_le_of_ne hp.length_le fun h => hne (hp.eq_of_length h)

section Writing

theorem isFolder_iff : t.isFolder p ↔ p = [] ∨ p ∈ t.folders := by simp [isFolder]

theorem isFolder_addFolder : (t.addFolder q).isFolder p ↔ t.isFolder p ∨ p = q := by
  rw [addFolder]
  split
  · rename_i h
    rw [isFolder_iff]
    exact (or_iff_left_of_imp fun hp => .inr (hp ▸ List.contains_iff_mem.1 h)).symm
  · simp [isFolder_iff, or_assoc]

theorem isFolder_foldl_addFolder :
    (ps.foldl addFolder t).isFolder p ↔ t.isFolder p ∨ p ∈ ps := by
  induction ps generalizing t with
  | nil => simp
  | cons q ps ih => rw [List.foldl_cons, ih, isFolder_addFolder, or_assoc, List.mem_cons]

theorem files_foldl_addFolder (t : Tree α) (ps : List Place) :
    (ps.foldl addFolder t).files = t.files := by
  induction ps generalizing t with
  | nil => rfl
  | cons q ps ih =>
    rw [List.foldl_cons, ih, addFolder]
    split <;> rfl

theorem files_write (t : Tree α) (place : Place) (a : α) :
    (t.write place a).files = Table.insert t.files place a := by
  rw [write, files_foldl_addFolder]

theorem isFolder_write :
    (t.write place a).isFolder p ↔ t.isFolder p ∨ p <+: place ∧ p ≠ place := by
  rw [← mem_above]
  exact isFolder_foldl_addFolder

theorem file?_write (t : Tree α) (place : Place) (a : α) (p : Place) :
    (t.write place a).file? p = if place = p then some a else t.file? p := by
  rw [file?, files_write, Table.get?_insert]
  simp [file?]

end Writing

section Names

theorem nameIn_append (folder folder' : Place) (name : String) :
    nameIn folder (folder' ++ [name]) = if folder' = folder then some name else none := by
  simp [nameIn]

theorem nameIn_eq_some {name : String} : nameIn folder p = some name ↔ p = folder ++ [name] := by
  rw [nameIn]
  constructor
  · intro h
    split_ifs at h with hfolder
    rw [← hfolder, List.dropLast_append_getLast? name h]
  · rintro rfl
    simp

theorem mem_names {name : String} : name ∈ t.names folder
    ↔ folder ++ [name] ∈ t.folders ∨ folder ++ [name] ∈ t.files.keys := by
  simp [names, nameIn_eq_some]

end Names

section Paths

/-- Through folders and without a step up, a path leads to the place with its steps. -/
theorem walk_eq (t : Tree α) (place : Place) (hup : ".." ∉ ss)
    (hfolders : ∀ p, place <+: p → p <+: place ++ ss → p ≠ place ++ ss → t.isFolder p) :
    t.walk place ss = if t.holds (place ++ ss) then some (place ++ ss) else none := by
  induction ss generalizing place with
  | nil => simp [walk]
  | cons s ss ih =>
    obtain ⟨hs, hss⟩ := not_or.1 (mt List.mem_cons.2 hup)
    have hplace : t.isFolder place := hfolders place (List.prefix_refl _)
      (List.prefix_append _ _) (by simp)
    have happend : place ++ s :: ss = (place ++ [s]) ++ ss := by simp
    rw [happend] at hfolders ⊢
    rw [walk, hplace, if_neg (by simp), if_neg (Ne.symm hs)]
    exact ih _ hss fun p hp => hfolders p ((List.prefix_append _ _).trans hp)

/-- A path without a step up leads to the place with its steps or nowhere. -/
theorem eq_of_walk (hup : ".." ∉ ss) (h : t.walk place ss = some p) : p = place ++ ss := by
  induction ss generalizing place with
  | nil =>
    rw [walk] at h
    split_ifs at h
    rw [List.append_nil, Option.some.inj h]
  | cons s ss ih =>
    obtain ⟨hs, hss⟩ := not_or.1 (mt List.mem_cons.2 hup)
    rw [walk] at h
    split_ifs at h with hfolder hstep
    · exact absurd hstep.symm hs
    · rw [ih hss h, List.append_assoc]
      rfl

theorem find_eq (hup : ".." ∉ place) (hfolders : ∀ p, p <+: place → p ≠ place → t.isFolder p) :
    t.find ⟨"", place⟩
      = if t.isFolder place then some (.folder place) else (t.file? place).map .file := by
  have hwalk := walk_eq t [] hup fun p _ => hfolders p
  rw [List.nil_append] at hwalk
  rw [find, if_pos rfl, hwalk, holds]
  cases hfolder : t.isFolder place <;> cases hfile : t.file? place <;> simp [hfolder, hfile]

end Paths

section Inside

/-- The tree without the files outside of a folder. -/
def inside (t : Tree α) (folder : Place) : Tree α :=
  { t with files := t.files.filter fun e => decide (folder <+: e.1) }

theorem isFolder_inside (t : Tree α) (folder p : Place) :
    (t.inside folder).isFolder p = t.isFolder p := rfl

theorem file?_inside (t : Tree α) (h : folder <+: p) :
    (t.inside folder).file? p = t.file? p := by
  rw [file?, file?, inside]
  dsimp only
  induction t.files with
  | nil => rfl
  | cons e es ih =>
    rw [List.filter_cons, Table.get?]
    split
    · rw [Table.get?, ih]
    · rename_i he
      have hne : ¬(e.1 == p) = true := fun hp => he (by rw [eq_of_beq hp]; exact decide_eq_true h)
      rw [if_neg hne, ih]

theorem walk_inside (hup : ".." ∉ ss) (hfolder : folder = place ++ ss) :
    (t.inside folder).walk place ss = t.walk place ss := by
  induction ss generalizing place with
  | nil =>
    rw [List.append_nil] at hfolder
    rw [walk, walk, holds, holds, isFolder_inside, hfolder, file?_inside t (List.prefix_refl _)]
  | cons s ss ih =>
    obtain ⟨hs, hss⟩ := not_or.1 (mt List.mem_cons.2 hup)
    rw [walk, walk, isFolder_inside, if_neg (Ne.symm hs), if_neg (Ne.symm hs),
      ih hss (by rw [hfolder]; simp)]

theorem find_inside (t : Tree α) (hup : ".." ∉ folder) :
    (t.inside folder).find ⟨"", folder⟩ = t.find ⟨"", folder⟩ := by
  rw [find, find, if_pos rfl, if_pos rfl, walk_inside hup (List.nil_append folder).symm]
  cases hwalk : t.walk [] folder with
  | none => rfl
  | some p =>
    obtain rfl : p = folder := eq_of_walk hup hwalk
    simp only [Option.bind_some, isFolder_inside, file?_inside t (List.prefix_refl p)]

theorem names_inside (t : Tree α) (folder : Place) :
    (t.inside folder).names folder = t.names folder := by
  rw [names, names, List.filterMap_append, List.filterMap_append]
  congr 1
  rw [inside, Table.keys, Table.keys, List.filterMap_map, List.filterMap_map,
    List.filterMap_filter]
  refine List.filterMap_congr fun e he => ?_
  split
  · rfl
  · rename_i hout
    refine (if_neg fun hfolder => hout (decide_eq_true ?_)).symm
    exact hfolder ▸ List.dropLast_prefix e.1

end Inside

end BuildPipeline.Files.Tree
