import BuildPipeline.Proofs.SharedTrees

/-!
What a listing shows. A collection is taken for a path, and the documents in the folder to which the
path leads are listed, whatever store took them. Only a safe name leads to the folder of its own
collection.
-/

namespace BuildPipeline

open Files Files.Tree DirectoryStore

/-- A listing shows the documents that the store took for the collection, or refuses the name. -/
def DirectoryStore.Confined (s : DirectoryStore) (fs : List Placement) (c : String) : Prop :=
  (∃ e, s.list c = .error e ∧ e.kind = "ValueError")
    ∨ ∃ vs, s.list c = .ok vs ∧ Deposit.Listed (Placement.into fs s.root) c vs

section Confined

variable {s : DirectoryStore} {fs : List Placement} {c : String} {vs : List Value} {e : StoreError}

theorem confined_of_ok (h : s.list c = .ok vs) :
    s.Confined fs c ↔ Deposit.Listed (Placement.into fs s.root) c vs := by
  simp [Confined, h]

theorem not_confined_of_error (h : s.list c = .error e) (he : e.kind ≠ "ValueError") :
    ¬s.Confined fs c := by
  simp [Confined, h, he]

end Confined

namespace SharedTree

variable {s : SharedTree} {root folder : Place} {c k name text : String} {path : Path}

/-- What stands in a file is the text of a document that was taken. -/
theorem Keeps.exists_of_file (h : s.Keeps) (hfile : s.tree.file? (folder ++ [name]) = some text) :
    ∃ f ∈ s.taken, Json.write .indented f.document = .ok text := by
  have hmem : folder ++ [name] ∈ s.tree.files.keys :=
    Table.mem_keys_iff.2 (Option.isSome_iff_exists.2 ⟨text, hfile⟩)
  obtain ⟨f, -, hplace⟩ := h.places _ hmem
  have htext := h.files f.root f.collection f.key
  rw [← Placement.place, hplace, hfile] at htext
  obtain ⟨w, hlast, hw⟩ := Option.map_eq_some_iff.1 htext.symm
  obtain ⟨d, hd, -, -, rfl⟩ := Deposit.exists_of_last hlast
  obtain ⟨g, hg, rfl⟩ := List.mem_map.1 hd
  exact ⟨g, List.mem_of_mem_filter hg, hw⟩

theorem Keeps.shelves (h : s.Keeps) (hclear : s.tree.Clear (root ++ [c])) :
    s.tree.Shelves (root ++ [c]) (Placement.into s.taken root) c where
  clear := hclear
  names := h.names root c
  files k := by
    rw [List.append_assoc, List.singleton_append]
    exact h.files root c k

/-- A folder in which no folder has the name of a document shows the documents of its own store and
collection. -/
theorem Keeps.mapM_loadAt (h : s.Keeps) (hjson : ∀ f ∈ s.taken, f.document.IsJson)
    (hclear : s.tree.Clear (root ++ [c])) (path : Path) : ∃ vs,
      (documentNames s.tree (root ++ [c])).mapM (loadAt s.tree path (root ++ [c])) = .ok vs
      ∧ Deposit.Listed (Placement.into s.taken root) c vs := by
  refine (h.shelves hclear).mapM_loadAt (fun d hd => ?_) path
  obtain ⟨f, hf, rfl⟩ := List.mem_map.1 hd
  exact hjson f (List.mem_of_mem_filter hf)

/-- A folder with the name of a document cannot be opened. -/
theorem Keeps.mapM_loadAt_of_not_clear (h : s.Keeps) (hjson : ∀ f ∈ s.taken, f.document.IsJson)
    (hclear : ¬s.tree.Clear folder) (path : Path) :
    ∃ e, (DirectoryStore.documentNames s.tree folder).mapM
        (DirectoryStore.loadAt s.tree path folder) = .error e
      ∧ e.kind = "IsADirectoryError" := by
  simp only [Tree.Clear, not_forall, not_not] at hclear
  obtain ⟨name, hname, hfolder⟩ := hclear
  have hmem : name ∈ DirectoryStore.documentNames s.tree folder := by
    rw [DirectoryStore.documentNames, List.mem_mergeSort, List.mem_filter, mem_names]
    exact ⟨.inl ((isFolder_iff.1 hfolder).resolve_left (by simp)), hname⟩
  cases hlist : (DirectoryStore.documentNames s.tree folder).mapM
      (DirectoryStore.loadAt s.tree path folder) with
  | ok vs =>
    obtain ⟨v, -, hv⟩ : ∃ v ∈ vs, DirectoryStore.loadAt s.tree path folder name = .ok v :=
      exists_mem_of_forall₂ (mapM_eq_ok.1 hlist).flip hmem
    rw [DirectoryStore.loadAt, h.apart _ hfolder] at hv
    cases hv
  | error e =>
    obtain ⟨name, -, he⟩ := exists_of_mapM_eq_error hlist
    rw [DirectoryStore.loadAt] at he
    refine ⟨e, rfl, ?_⟩
    split at he
    · rename_i text hfile
      obtain ⟨f, hf, htext⟩ := h.exists_of_file hfile
      rw [load_write (hjson f hf) htext] at he
      cases he
    · cases he
      rfl

end SharedTree

section Paths

variable {t : Files.Tree String} {root folder : Place} {c : String}

theorem folderPath_of_isSafe (root : Place) (t : Files.Tree String) (hc : isSafe c) :
    (DirectoryStore.mk root t).folderPath c = ⟨"", root ++ [c]⟩ := by
  rw [folderPath, path_of_isSafe hc]
  rfl

theorem not_mem_of_isSafe (hroot : ".." ∉ root) (hc : isSafe c) : ".." ∉ root ++ [c] := by
  simpa using ⟨hroot, (step_of_isSafe hc).2.2.2.symm⟩

/-- A safe name leads to the folder of its own collection. -/
theorem eq_of_find (hroot : ".." ∉ root) (hc : isSafe c)
    (h : t.find ((DirectoryStore.mk root t).folderPath c) = some (.folder folder)) :
    folder = root ++ [c] := by
  rw [folderPath_of_isSafe root t hc, find, if_pos rfl] at h
  obtain ⟨p, hwalk, hp⟩ := Option.bind_eq_some_iff.1 h
  obtain rfl := eq_of_walk (not_mem_of_isSafe hroot hc) hwalk
  split at hp
  · cases hp
    rfl
  · cases hfile : t.file? ([] ++ (root ++ [c])) <;> rw [hfile] at hp <;> cases hp

theorem list_of_find {path : Path} (hpath : (DirectoryStore.mk root t).folderPath c = path)
    (h : t.find path = some (.folder folder)) : DirectoryStore.list ⟨root, t⟩ c
      = (documentNames t folder).mapM (loadAt t path folder) := by
  rw [DirectoryStore.list, hpath, h]

end Paths

namespace SharedTree

variable {s : SharedTree} {root : Place} {c k : String}

theorem Keeps.find_folder (h : s.Keeps) (hroot : ".." ∉ root)
    (hk : k ∈ Deposit.keys (Placement.into s.taken root) c) :
    s.tree.find ((DirectoryStore.mk root s.tree).folderPath c) = some (.folder (root ++ [c])) := by
  obtain ⟨f, hf, hplace⟩ := Placement.mem_keys_into.1 hk
  obtain ⟨rfl, rfl, rfl⟩ := Placement.place_eq_iff.1 hplace
  have hsafe := (h.safe f hf).1
  rw [folderPath_of_isSafe _ _ hsafe, find_eq (not_mem_of_isSafe hroot hsafe) fun p hp _ =>
    h.folders f hf p hp]
  exact if_pos (h.folders f hf _ (List.prefix_refl _))

theorem Keeps.keys_of_not_isSafe (h : s.Keeps) (hc : ¬isSafe c) (root : Place) :
    Deposit.keys (Placement.into s.taken root) c = [] := by
  refine List.eq_nil_iff_forall_not_mem.2 fun k hk => ?_
  obtain ⟨f, hf, hplace⟩ := Placement.mem_keys_into.1 hk
  obtain ⟨-, rfl, -⟩ := Placement.place_eq_iff.1 hplace
  exact hc (h.safe f hf).1

theorem Keeps.documentNames_eq_nil (h : s.Keeps) {folder : Place} (hclear : s.tree.Clear folder)
    (hfree : ∀ f ∈ s.taken, f.folder ≠ folder) :
    DirectoryStore.documentNames s.tree folder = [] := by
  refine List.eq_nil_iff_forall_not_mem.2 fun name hname => ?_
  rw [DirectoryStore.documentNames, List.mem_mergeSort, List.mem_filter, mem_names] at hname
  obtain ⟨hfolder | hfile, hdoc⟩ := hname
  · exact hclear name hdoc (isFolder_iff.2 (.inr hfolder))
  · obtain ⟨f, hf, hplace⟩ := h.places _ hfile
    rw [Placement.place_eq] at hplace
    exact hfree f hf (List.append_inj' hplace rfl).1

/-- A listing is confined to its collection exactly if the path does not lead to documents of other
names, nor to folders with such names. -/
theorem Keeps.confined_iff (h : s.Keeps) (hjson : ∀ f ∈ s.taken, f.document.IsJson)
    (hroot : ".." ∉ root) (c : String) :
    DirectoryStore.Confined ⟨root, s.tree⟩ s.taken c ↔ ∀ folder,
      s.tree.find ((DirectoryStore.mk root s.tree).folderPath c) = some (.folder folder) →
        s.tree.Clear folder ∧ (isSafe c ∨ ∀ f ∈ s.taken, f.folder ≠ folder) := by
  generalize hpath : (DirectoryStore.mk root s.tree).folderPath c = path
  constructor
  · intro hconfined folder hfind
    have hclear : s.tree.Clear folder := by
      by_contra hclear
      obtain ⟨e, herror, hkind⟩ := h.mapM_loadAt_of_not_clear hjson hclear path
      rw [← list_of_find hpath hfind] at herror
      exact not_confined_of_error herror (by rw [hkind]; decide) hconfined
    refine ⟨hclear, or_iff_not_imp_left.2 fun hc f hf hfolder => ?_⟩
    subst hfolder
    obtain ⟨vs, hvs, hlisted⟩ := h.mapM_loadAt hjson hclear path
    have hnil := (Deposit.listed_iff (h.keys_of_not_isSafe hc root)).1
      ((confined_of_ok ((list_of_find hpath hfind).trans hvs)).1 hconfined)
    subst hnil
    have hmem : f.key ∈ Deposit.keys (Placement.into s.taken f.root) f.collection :=
      Placement.mem_keys_into.2 ⟨f, hf, rfl⟩
    rw [hlisted.keys_eq_nil] at hmem
    cases hmem
  · intro hfree
    have hnone (hlist : DirectoryStore.list ⟨root, s.tree⟩ c = .ok [])
        (hfind : ∀ folder, s.tree.find path ≠ some (.folder folder)) :
        DirectoryStore.Confined ⟨root, s.tree⟩ s.taken c := by
      refine (confined_of_ok hlist).2 ((Deposit.listed_iff ?_).2 rfl)
      refine List.eq_nil_iff_forall_not_mem.2 fun k hk => ?_
      exact hfind _ (hpath ▸ h.find_folder hroot hk)
    cases hfind : s.tree.find path with
    | none => exact hnone (by rw [DirectoryStore.list, hpath, hfind]) (by simp [hfind])
    | some entry =>
      cases entry with
      | file text => exact hnone (by rw [DirectoryStore.list, hpath, hfind]) (by simp [hfind])
      | folder folder =>
        obtain ⟨hclear, hother⟩ := hfree folder hfind
        have hlist := list_of_find hpath hfind
        by_cases hc : isSafe c
        · obtain rfl := eq_of_find hroot hc (hpath ▸ hfind)
          obtain ⟨vs, hvs, hlisted⟩ := h.mapM_loadAt hjson hclear path
          exact (confined_of_ok (hlist.trans hvs)).2 hlisted
        · rw [h.documentNames_eq_nil hclear (hother.resolve_left hc)] at hlist
          exact (confined_of_ok hlist).2
            ((Deposit.listed_iff (h.keys_of_not_isSafe hc root)).2 rfl)

end SharedTree

section Listing

variable {t : Files.Tree String} {root : Place} {c : String} {fs : List Placement}

/-- Under a safe name, files outside of the folder of the collection are not read. -/
theorem list_inside (hroot : ".." ∉ root) (hc : isSafe c) (t : Files.Tree String) :
    DirectoryStore.list ⟨root, t.inside (root ++ [c])⟩ c = DirectoryStore.list ⟨root, t⟩ c := by
  rw [DirectoryStore.list, DirectoryStore.list, folderPath_of_isSafe root _ hc,
    folderPath_of_isSafe root t hc, find_inside t (not_mem_of_isSafe hroot hc)]
  dsimp only
  split
  · rename_i folder hfind
    obtain rfl := eq_of_find hroot hc ((folderPath_of_isSafe root t hc).symm ▸ hfind)
    rw [documentNames, names_inside, ← documentNames]
    exact mapM_congr fun name _ => by
      rw [loadAt, loadAt, file?_inside t (List.prefix_append _ _)]
  · rfl

/-- Stores anywhere in a tree without files took documents, and one of them lists a collection. A
relative name is followed as a path. If it leads to a folder, the documents that were taken there
are listed, whatever the name is, and a folder with the name of a document makes the listing fail.
So the listing is confined to the collection exactly if no folder has such a name and the collection
has a safe name or the path leads to no documents. A safe name leads to its own collection, and only
files in its folder are read. An absolute name leads away from the store. -/
theorem DirectoryStore.list_confined_iff (ht : t.files = []) (hroot : ".." ∉ root)
    (hfs : ∀ f ∈ fs, f.document.IsJson) (c : String) :
    let s := SharedTree.putAll ⟨t, []⟩ fs
    let store : DirectoryStore := ⟨root, s.tree⟩
    let leads (folder : Place) := s.tree.find (store.folderPath c) = some (.folder folder)
    ((Path.ofText c).root = "" →
      (store.Confined s.taken c ↔ ∀ folder, leads folder →
        s.tree.Clear folder ∧ (isSafe c ∨ ∀ f ∈ s.taken, f.folder ≠ folder))
      ∧ (∀ root' c', leads (root' ++ [c']) → s.tree.Clear (root' ++ [c']) →
        ∃ vs, store.list c = .ok vs ∧ Deposit.Listed (Placement.into s.taken root') c' vs)
      ∧ ∀ folder, leads folder → ¬s.tree.Clear folder →
        ∃ e, store.list c = .error e ∧ e.kind = "IsADirectoryError")
    ∧ (isSafe c → (∀ folder, leads folder → folder = root ++ [c])
      ∧ ∀ u : Files.Tree String,
        DirectoryStore.list ⟨root, u.inside (root ++ [c])⟩ c = DirectoryStore.list ⟨root, u⟩ c)
    ∧ ((Path.ofText c).root ≠ "" → store.folderPath c = Path.ofText c) := by
  intro s store leads
  have hkeeps : s.Keeps := (SharedTree.keeps_start ht).putAll fs
  have hjson : ∀ f ∈ s.taken, f.document.IsJson := fun f hf =>
    hfs f ((SharedTree.mem_of_mem_taken hf).resolve_left List.not_mem_nil)
  refine ⟨fun _ => ⟨hkeeps.confined_iff hjson hroot c, fun root' c' hleads hclear => ?_,
    fun folder hleads hclear => ?_⟩, fun hc => ⟨fun folder => eq_of_find hroot hc,
    list_inside hroot hc⟩, fun habsolute => if_neg habsolute⟩
  · rw [list_of_find rfl hleads]
    exact hkeeps.mapM_loadAt hjson hclear _
  · rw [list_of_find rfl hleads]
    exact hkeeps.mapM_loadAt_of_not_clear hjson hclear _

/-- A document for the store in one folder, and one with the same names for the store next to it. -/
def neighbours : List Placement :=
  [⟨⟨"c", "k", .ofTable [("v", .int 1)]⟩, ["store"]⟩,
    ⟨⟨"c", "k", .ofTable [("v", .int 2)]⟩, ["next"]⟩]

theorem isJson_neighbours : ∀ f ∈ neighbours, f.document.IsJson := by
  simp only [neighbours, List.forall_mem_cons]
  refine ⟨.table _ (by decide) ?_, .table _ (by decide) ?_, nofun⟩ <;>
    exact List.forall_mem_singleton.2 (.scalar _ trivial)

theorem DirectoryStore.list_confined_iff_neighbours :
    let s := SharedTree.putAll ⟨.empty, []⟩ neighbours
    (.empty : Files.Tree String).files = [] ∧ ".." ∉ ["store"]
      ∧ (∀ f ∈ neighbours, f.document.IsJson)
      ∧ DirectoryStore.Confined ⟨["store"], s.tree⟩ s.taken "c"
      ∧ ∃ vs, DirectoryStore.list ⟨["store"], s.tree⟩ "../next/c" = .ok vs
        ∧ Deposit.Listed (Placement.into s.taken ["next"]) "c" vs := by
  intro s
  have hclear (root : String) : s.tree.Clear [root, "c"] := by
    have hfolders : s.tree.folders
        = [[], ["store"], ["store", "c"], ["next"], ["next", "c"]] := by decide +kernel
    intro name _
    rw [isFolder_iff, hfolders]
    simp
  have hjson := isJson_neighbours
  obtain ⟨hrelative, hsafe, -⟩ := DirectoryStore.list_confined_iff
    (t := .empty) rfl (show ".." ∉ ["store"] by decide) hjson "c"
  obtain ⟨hrelative', -, -⟩ := DirectoryStore.list_confined_iff
    (t := .empty) rfl (show ".." ∉ ["store"] by decide) hjson "../next/c"
  refine ⟨rfl, by decide, hjson, ?_, ?_⟩
  · refine (hrelative (by decide)).1.2 fun folder hleads => ?_
    obtain rfl := (hsafe (by decide)).1 folder hleads
    exact ⟨hclear "store", .inl (by decide)⟩
  · exact (hrelative' (by decide)).2.1 ["next"] "c" (by decide +kernel) (hclear "next")

/-- The same collection under two more names, and the one of another store. -/
theorem DirectoryStore.list_not_confined :
    let s := SharedTree.putAll ⟨.empty, []⟩ neighbours
    ∀ c ∈ ["c/", "../store/c", "../next/c"],
      ¬DirectoryStore.Confined ⟨["store"], s.tree⟩ s.taken c := by
  intro s c hc hconfined
  have hkeys : ∀ c ∈ ["c/", "../store/c", "../next/c"],
      Deposit.keys (Placement.into s.taken ["store"]) c = [] := by decide +kernel
  have hlist : ∀ c ∈ ["c/", "../store/c", "../next/c"],
      (DirectoryStore.list ⟨["store"], s.tree⟩ c).map List.length = .ok 1 := by decide +kernel
  have hlist := hlist c hc
  rcases hconfined with ⟨e, he, -⟩ | ⟨vs, hvs, hlisted⟩
  · rw [he] at hlist
    cases hlist
  · rw [hvs, (Deposit.listed_iff (hkeys c hc)).1 hlisted] at hlist
    cases hlist

end Listing

end BuildPipeline
