import BuildPipeline.Proofs.Deposits

/-!
Stores that share one tree of files. Each of them lives in a folder, which may lie inside of the
folder of another one, and each takes documents in its turn. What stands in the tree afterwards is
told by the documents that were taken.
-/

namespace BuildPipeline

open Files Files.Tree DirectoryStore

/-- A document on its way to the store in a folder. -/
structure Placement extends Deposit where
  root : Place

namespace Placement

def folder (f : Placement) : Place := f.root ++ [f.collection]

def place (f : Placement) : Place := f.root ++ [f.collection, fileName f.key]

/-- The documents for the store in a folder. -/
def into (fs : List Placement) (root : Place) : List Deposit :=
  (fs.filter (·.root = root)).map (·.toDeposit)

variable {f : Placement} {root : Place} {c k : String}

theorem place_eq (f : Placement) : f.place = f.folder ++ [fileName f.key] := List.append_cons ..

theorem folder_eq_iff : f.folder = root ++ [c] ↔ f.root = root ∧ f.collection = c := by
  refine ⟨fun h => ?_, fun ⟨hroot, hc⟩ => by rw [folder, hroot, hc]⟩
  obtain ⟨hroot, hc⟩ := List.append_inj' h rfl
  exact ⟨hroot, by simpa using hc⟩

theorem place_eq_iff : f.place = root ++ [c, fileName k]
    ↔ f.root = root ∧ f.collection = c ∧ f.key = k := by
  refine ⟨fun h => ?_, fun ⟨hroot, hc, hk⟩ => by rw [place, hroot, hc, hk]⟩
  obtain ⟨hroot, hnames⟩ := List.append_inj' h rfl
  have hnames : f.collection = c ∧ fileName f.key = fileName k := by simpa using hnames
  exact ⟨hroot, hnames.1, fileName_injective hnames.2⟩

theorem mem_above_place {p : Place} : p ∈ above f.place ↔ p <+: f.folder := by
  rw [mem_above, place_eq, List.prefix_concat_iff]
  refine ⟨fun h => h.1.resolve_left h.2, fun h => ⟨.inr h, fun heq => ?_⟩⟩
  have hlength := h.length_le
  simp [heq] at hlength

theorem into_append (fs : List Placement) (f : Placement) (root : Place) : into (fs ++ [f]) root
    = if f.root = root then into fs root ++ [f.toDeposit] else into fs root := by
  rw [into, List.filter_append, List.map_append]
  by_cases hroot : f.root = root <;> simp [hroot, into]

theorem last_into (fs : List Placement) (f : Placement) (root : Place) (c k : String) :
    Deposit.last (into (fs ++ [f]) root) c k
      = if f.place = root ++ [c, fileName k] then some f.document
        else Deposit.last (into fs root) c k := by
  simp only [into_append, place_eq_iff]
  by_cases hroot : f.root = root
  · simp [hroot, Deposit.last_append]
  · simp [hroot]

theorem keys_into (fs : List Placement) (f : Placement) (root : Place) (c : String) :
    Deposit.keys (into (fs ++ [f]) root) c
      = if f.folder = root ++ [c] ∧ f.key ∉ Deposit.keys (into fs root) c
        then Deposit.keys (into fs root) c ++ [f.key] else Deposit.keys (into fs root) c := by
  simp only [into_append, folder_eq_iff]
  by_cases hroot : f.root = root
  · simp [hroot, Deposit.keys_append]
  · simp [hroot]

theorem mem_keys_into {fs : List Placement} : k ∈ Deposit.keys (into fs root) c
    ↔ ∃ f ∈ fs, f.place = root ++ [c, fileName k] := by
  simp [Deposit.mem_keys, into, place_eq_iff, and_assoc]

end Placement

/-- A tree of files and the documents that the stores in it took, in order. -/
structure SharedTree where
  tree : Files.Tree String
  taken : List Placement

namespace SharedTree

/-- Makes the folders that a document is kept in. -/
def makeFolders (s : SharedTree) (f : Placement) : SharedTree :=
  { s with tree := (above f.place).foldl addFolder s.tree }

/-- Puts a document at a place that no file lies above. Folders are made before the text is, and no
file is made where a folder stands. -/
def putAt (s : SharedTree) (f : Placement) (place : Place) : SharedTree :=
  match (DirectoryStore.mk f.root s.tree).put f.collection f.key f.document with
  | .ok filed => if s.tree.isFolder place then s.makeFolders f else ⟨filed.tree, s.taken ++ [f]⟩
  | .error _ => s.makeFolders f

/-- Puts a document in the store in a folder. No folder is made where a file stands. -/
def put (s : SharedTree) (f : Placement) : SharedTree :=
  match (DirectoryStore.mk f.root s.tree).place f.collection f.key with
  | .ok place => if (above place).any fun p => (s.tree.file? p).isSome then s else s.putAt f place
  | .error _ => s

def putAll (s : SharedTree) (fs : List Placement) : SharedTree := fs.foldl put s

variable {s : SharedTree} {f : Placement} {fs : List Placement} {root p : Place} {c k : String}

/-- What a document can do to the tree: nothing, make folders, or be taken. -/
theorem put_cases (s : SharedTree) (f : Placement) : s.put f = s
    ∨ (∀ p ∈ above f.place, s.tree.file? p = none)
      ∧ (s.put f = s.makeFolders f
        ∨ (isSafe f.collection ∧ isSafe f.key) ∧ s.tree.isFolder f.place = false
          ∧ ∃ text, Json.write .indented f.document = .ok text
            ∧ s.put f = ⟨s.tree.write f.place text, s.taken ++ [f]⟩) := by
  unfold put
  split
  · rename_i place hplace
    obtain ⟨hsafe, rfl⟩ := place_eq_ok.1 hplace
    split
    · exact .inl rfl
    · rename_i habove
      simp only [List.any_eq_true, not_exists, not_and, Option.isSome_iff_ne_none, not_not]
        at habove
      refine .inr ⟨habove, ?_⟩
      unfold putAt
      split
      · rename_i filed hput
        obtain ⟨-, text, htext, rfl⟩ := put_eq_ok.1 hput
        split
        · exact .inl rfl
        · rename_i hfolder
          exact .inr ⟨hsafe, Bool.eq_false_iff.2 hfolder, text, htext, rfl⟩
      · exact .inl rfl
  · exact .inl rfl

/-- What holds of a tree in which stores took documents. -/
structure Keeps (s : SharedTree) : Prop where
  safe : ∀ f ∈ s.taken, isSafe f.collection ∧ isSafe f.key
  places : ∀ p ∈ s.tree.files.keys, ∃ f ∈ s.taken, f.place = p
  files : ∀ root c k, (s.tree.file? (root ++ [c, fileName k])).map .ok
    = (Deposit.last (Placement.into s.taken root) c k).map (Json.write .indented)
  names : ∀ root c, s.tree.files.keys.filterMap (nameIn (root ++ [c]))
    = (Deposit.keys (Placement.into s.taken root) c).map fileName
  folders : ∀ f ∈ s.taken, ∀ p, p <+: f.folder → s.tree.isFolder p
  apart : ∀ p, s.tree.isFolder p → s.tree.file? p = none

theorem keeps_start {t : Files.Tree String} (ht : t.files = []) : Keeps ⟨t, []⟩ where
  safe := nofun
  places p hp := by simp [ht, Table.keys] at hp
  files root c k := by
    rw [file?, ht]
    rfl
  names root c := by
    rw [ht]
    rfl
  folders := nofun
  apart p _ := by
    rw [file?, ht]
    rfl

theorem Keeps.makeFolders (h : s.Keeps) (habove : ∀ p ∈ above f.place, s.tree.file? p = none) :
    (s.makeFolders f).Keeps := by
  have hfiles : (s.makeFolders f).tree.files = s.tree.files := files_foldl_addFolder _ _
  have hfolders {p : Place} : (s.makeFolders f).tree.isFolder p
      ↔ s.tree.isFolder p ∨ p ∈ above f.place := isFolder_foldl_addFolder
  refine ⟨h.safe, ?_, fun root c k => ?_, fun root c => ?_, fun g hg p hp => ?_, fun p hp => ?_⟩
  · rw [hfiles]
    exact h.places
  · rw [file?, hfiles]
    exact h.files root c k
  · rw [hfiles]
    exact h.names root c
  · exact hfolders.2 (.inl (h.folders g hg p hp))
  · rw [file?, hfiles]
    exact (hfolders.1 hp).elim (h.apart p) (habove p)

/-- A file is there if a document was taken under its key. -/
theorem Keeps.mem_keys_iff (h : s.Keeps) : root ++ [c, fileName k] ∈ s.tree.files.keys
    ↔ k ∈ Deposit.keys (Placement.into s.taken root) c := by
  rw [Table.mem_keys_iff, Deposit.mem_keys_iff_last, ← Option.isSome_map, ← file?, h.files,
    Option.isSome_map]

theorem Keeps.take (h : s.Keeps) (habove : ∀ p ∈ above f.place, s.tree.file? p = none)
    (hsafe : isSafe f.collection ∧ isSafe f.key) (hplace : s.tree.isFolder f.place = false)
    {text : String} (htext : Json.write .indented f.document = .ok text) :
    Keeps ⟨s.tree.write f.place text, s.taken ++ [f]⟩ where
  safe g hg := by
    rcases List.mem_append.1 hg with hg | hg
    · exact h.safe g hg
    · rw [List.mem_singleton.1 hg]
      exact hsafe
  places p hp := by
    rw [files_write] at hp
    rcases Table.mem_keys_insert hp with hp | rfl
    · obtain ⟨g, hg, hgp⟩ := h.places p hp
      exact ⟨g, List.mem_append_left _ hg, hgp⟩
    · exact ⟨f, List.mem_append_right _ List.mem_cons_self, rfl⟩
  files root c k := by
    rw [file?_write, Placement.last_into]
    split
    · rw [Option.map_some, Option.map_some, htext]
    · exact h.files root c k
  names root c := by
    have hname : nameIn (root ++ [c]) f.place
        = if f.folder = root ++ [c] then some (fileName f.key) else none := by
      rw [Placement.place_eq, nameIn_append]
    have hmem (hfolder : f.folder = root ++ [c]) : f.place ∈ s.tree.files.keys
        ↔ f.key ∈ Deposit.keys (Placement.into s.taken root) c := by
      obtain ⟨rfl, rfl⟩ := Placement.folder_eq_iff.1 hfolder
      exact h.mem_keys_iff
    rw [files_write, Table.keys_insert, Placement.keys_into]
    by_cases hfolder : f.folder = root ++ [c]
    · by_cases hk : f.key ∈ Deposit.keys (Placement.into s.taken root) c
      · rw [if_pos ((hmem hfolder).2 hk), if_neg fun hnew => hnew.2 hk]
        exact h.names root c
      · rw [if_neg (mt (hmem hfolder).1 hk), List.filterMap_append, h.names,
          if_pos ⟨hfolder, hk⟩]
        simp [hname, hfolder]
    · rw [if_neg (fun hnew => hfolder hnew.1 : ¬(f.folder = root ++ [c] ∧ _))]
      split
      · exact h.names root c
      · rw [List.filterMap_append, h.names]
        simp [hname, hfolder]
  folders g hg p hp := by
    rw [isFolder_write, ← mem_above, Placement.mem_above_place]
    rcases List.mem_append.1 hg with hg | hg
    · exact .inl (h.folders g hg p hp)
    · rw [List.mem_singleton.1 hg] at hp
      exact .inr hp
  apart p hp := by
    rw [isFolder_write, ← mem_above] at hp
    have hne : f.place ≠ p := by
      rintro rfl
      rcases hp with hp | hp
      · rw [hplace] at hp
        cases hp
      · exact (mem_above.1 hp).2 rfl
    rw [file?_write, if_neg hne]
    exact hp.elim (h.apart p) (habove p)

theorem Keeps.put (h : s.Keeps) (f : Placement) : (s.put f).Keeps := by
  rcases s.put_cases f with heq | ⟨habove, heq | ⟨hsafe, hplace, text, htext, heq⟩⟩
  · rwa [heq]
  · rw [heq]
    exact h.makeFolders habove
  · rw [heq]
    exact h.take habove hsafe hplace htext

/-- Only what was put is taken. -/
theorem mem_of_mem_taken {g : Placement} (h : g ∈ (s.putAll fs).taken) : g ∈ s.taken ∨ g ∈ fs := by
  induction fs generalizing s with
  | nil => exact .inl h
  | cons f fs ih =>
    rcases ih h with h | h
    · rcases s.put_cases f with heq | ⟨-, heq | ⟨-, -, text, -, heq⟩⟩
      · exact .inl (heq ▸ h)
      · rw [heq] at h
        exact .inl h
      · rw [heq] at h
        rcases List.mem_append.1 h with h | h
        · exact .inl h
        · exact .inr (List.mem_singleton.1 h ▸ List.mem_cons_self)
    · exact .inr (List.mem_cons_of_mem f h)

theorem Keeps.putAll (h : s.Keeps) (fs : List Placement) : (s.putAll fs).Keeps := by
  induction fs generalizing s with
  | nil => exact h
  | cons f fs ih => exact ih (h.put f)

end SharedTree

end BuildPipeline
