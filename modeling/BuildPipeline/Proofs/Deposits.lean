import BuildPipeline.Proofs.StoreLaws
import Mathlib.Data.List.Induction
import Mathlib.Data.List.Nodup

/-!
Documents on their way to a store, one after another.  What counts afterwards is the last document
under each pair of names, and for each collection the keys in the order in which they first came.
A folder that has a file for each key of a collection gives these documents when its files are read
in the order of their names.
-/

namespace BuildPipeline

open Yaml (Portable)

/-- A document for a collection, under a key. -/
structure Deposit where
  collection : String
  key : String
  document : Value

namespace Deposit

structure Proper (d : Deposit) : Prop where
  collection : SafeName d.collection
  key : SafeName d.key
  document : Portable d.document

instance (d : Deposit) : Decidable d.Proper :=
  decidable_of_iff (SafeName d.collection ∧ SafeName d.key ∧ Portable d.document)
    ⟨fun h => ⟨h.1, h.2.1, h.2.2⟩, fun h => ⟨h.collection, h.key, h.document⟩⟩

/-- The document that came last under two names. -/
def last (ds : List Deposit) (c k : String) : Option Value :=
  (ds.reverse.find? fun d => d.collection = c ∧ d.key = k).map (·.document)

/-- The keys of a collection, each where it first came. -/
def keys (ds : List Deposit) (c : String) : List String :=
  ((ds.filter (·.collection = c)).map (·.key)).eraseDups

variable {ds : List Deposit} {d : Deposit} {c k : String} {v : Value}

theorem last_append (ds : List Deposit) (d : Deposit) (c k : String) : last (ds ++ [d]) c k
    = if d.collection = c ∧ d.key = k then some d.document else last ds c k := by
  rw [last, List.reverse_append, List.reverse_singleton, List.singleton_append, List.find?_cons]
  by_cases h : d.collection = c ∧ d.key = k <;> simp [h, last]

theorem eraseDups_concat (as : List String) (a : String) : (as ++ [a]).eraseDups
    = if a ∈ as.eraseDups then as.eraseDups else as.eraseDups ++ [a] := by
  have hremoved : [a].removeAll as = if a ∈ as then [] else [a] := by
    by_cases h : a ∈ as <;> simp [List.removeAll, h]
  rw [List.eraseDups_append, hremoved]
  by_cases h : a ∈ as <;> simp [h, List.eraseDups_cons]

theorem mem_keys : k ∈ keys ds c ↔ ∃ d ∈ ds, d.collection = c ∧ d.key = k := by
  simp [keys, and_assoc]

theorem keys_append (ds : List Deposit) (d : Deposit) (c : String) : keys (ds ++ [d]) c
    = if d.collection = c ∧ d.key ∉ keys ds c then keys ds c ++ [d.key] else keys ds c := by
  rw [keys, List.filter_append, List.map_append]
  by_cases hc : d.collection = c
  · have hsingle : ([d].filter (·.collection = c)).map (·.key) = [d.key] := by simp [hc]
    rw [hsingle, eraseDups_concat, ← keys]
    by_cases hk : d.key ∈ keys ds c <;> simp [hc, hk]
  · simp [hc, keys]

theorem exists_of_last (h : last ds c k = some v) :
    ∃ d ∈ ds, d.collection = c ∧ d.key = k ∧ d.document = v := by
  obtain ⟨d, hd, rfl⟩ := Option.map_eq_some_iff.1 h
  have hnames := List.find?_some hd
  obtain ⟨hc, hk⟩ := of_decide_eq_true hnames
  exact ⟨d, List.mem_reverse.1 (List.mem_of_find?_eq_some hd), hc, hk, rfl⟩

theorem mem_keys_iff_last : k ∈ keys ds c ↔ (last ds c k).isSome := by
  rw [mem_keys, last, Option.isSome_map, List.find?_isSome]
  simp

theorem nodup_keys (ds : List Deposit) (c : String) : (keys ds c).Nodup := by
  induction ds using List.reverseRecOn with
  | nil => exact List.nodup_nil
  | append_singleton ds d ih =>
    rw [keys_append]
    split
    · rename_i h
      exact List.concat_eq_append ▸ ih.concat h.2
    · exact ih

end Deposit

section Folders

open Files Files.Tree DirectoryStore

variable {t : Files.Tree String} {folder : Place} {ds : List Deposit} {c k : String}
  {vs : List Value}

/-- The last documents under the keys of a collection, in the order of their file names. -/
def Deposit.Listed (ds : List Deposit) (c : String) (vs : List Value) : Prop :=
  ∃ ks, ks.Perm (Deposit.keys ds c) ∧ ks.Pairwise (fun a b => fileName a < fileName b)
    ∧ List.Forall₂ (fun k v => ∃ w, Deposit.last ds c k = some w ∧ Value.Reordered v w) ks vs

/-- No folder in a folder has the name of a document. -/
def Files.Tree.Clear (t : Files.Tree String) (folder : Place) : Prop :=
  ∀ name, isDocumentName name → ¬t.isFolder (folder ++ [name])

/-- A folder holds the documents of a collection: the names of its files are made of the keys, and
each file is the text of the last document under its key. -/
structure Files.Tree.Shelves (t : Files.Tree String) (folder : Place) (ds : List Deposit)
    (c : String) : Prop where
  clear : t.Clear folder
  names : t.files.keys.filterMap (nameIn folder) = (Deposit.keys ds c).map fileName
  files : ∀ k, (t.file? (folder ++ [fileName k])).map .ok
    = (Deposit.last ds c k).map (Json.write .indented)

theorem Deposit.listed_iff (h : Deposit.keys ds c = []) : Deposit.Listed ds c vs ↔ vs = [] := by
  constructor
  · rintro ⟨ks, hperm, -, hall⟩
    rw [h, List.perm_nil] at hperm
    subst hperm
    exact List.forall₂_nil_left_iff.1 hall
  · rintro rfl
    exact ⟨[], h ▸ .nil, .nil, .nil⟩

theorem Deposit.Listed.keys_eq_nil (h : Deposit.Listed ds c []) : Deposit.keys ds c = [] := by
  obtain ⟨ks, hperm, -, hall⟩ := h
  rw [List.forall₂_nil_right_iff.1 hall] at hperm
  exact List.nil_perm.1 hperm

theorem isDocumentName_fileName (k : String) : isDocumentName (fileName k) := by
  simp [isDocumentName, fileName]

theorem pairwise_fileName {ks : List String} (h : ks.Nodup) :
    (ks.mergeSort fun a b => decide (fileName a ≤ fileName b)).Pairwise
      fun a b => fileName a < fileName b := by
  have hle := @List.pairwise_mergeSort _ (fun a b => decide (fileName a ≤ fileName b))
    (fun a b c hab hbc => by simpa using String.le_trans (by simpa using hab) (by simpa using hbc))
    (fun a b => by simpa using String.le_total (fileName a) (fileName b)) ks
  have hnodup := (List.mergeSort_perm ks fun a b => decide (fileName a ≤ fileName b)).nodup_iff.2 h
  refine (hle.and hnodup).imp fun {a b} hab => String.not_le.1 fun hba => hab.2 ?_
  exact fileName_injective (String.le_antisymm (of_decide_eq_true hab.1) hba)

namespace Files.Tree.Shelves

theorem documentNames (h : t.Shelves folder ds c) : documentNames t folder
    = ((Deposit.keys ds c).mergeSort fun a b => decide (fileName a ≤ fileName b)).map fileName := by
  have hfolders : (t.folders.filterMap (nameIn folder)).filter isDocumentName = [] := by
    refine List.filter_eq_nil_iff.2 fun name hname => ?_
    obtain ⟨p, hp, hname⟩ := List.mem_filterMap.1 hname
    rw [nameIn_eq_some.1 hname] at hp
    exact fun hdoc => h.clear name hdoc (isFolder_iff.2 (.inr hp))
  have hfiles : ∀ name ∈ (Deposit.keys ds c).map fileName, isDocumentName name :=
    List.forall_mem_map.2 fun k _ => isDocumentName_fileName k
  rw [DirectoryStore.documentNames, Files.Tree.names, List.filterMap_append, List.filter_append,
    hfolders, List.nil_append, h.names, List.filter_eq_self.2 hfiles]
  exact (List.map_mergeSort (f := fileName) fun _ _ _ _ => rfl).symm

theorem loadAt (h : t.Shelves folder ds c) (hds : ∀ d ∈ ds, d.document.IsJson) (path : Path)
    (hk : k ∈ Deposit.keys ds c) : ∃ v, loadAt t path folder (fileName k) = .ok v
      ∧ ∃ w, Deposit.last ds c k = some w ∧ Value.Reordered v w := by
  obtain ⟨w, hlast⟩ := Option.isSome_iff_exists.1 (Deposit.mem_keys_iff_last.1 hk)
  obtain ⟨d, hd, -, -, rfl⟩ := Deposit.exists_of_last hlast
  have hfile := h.files k
  rw [hlast, Option.map_some, Option.map_eq_some_iff] at hfile
  obtain ⟨text, hfile, htext⟩ := hfile
  refine ⟨d.document.sorted, ?_, d.document, hlast, (hds d hd).reordered_sorted⟩
  rw [DirectoryStore.loadAt, hfile]
  exact load_write (hds d hd) htext.symm

/-- The documents in the folder are listed. -/
theorem mapM_loadAt (h : t.Shelves folder ds c) (hds : ∀ d ∈ ds, d.document.IsJson)
    (path : Path) : ∃ vs,
      (DirectoryStore.documentNames t folder).mapM (DirectoryStore.loadAt t path folder) = .ok vs
      ∧ Deposit.Listed ds c vs := by
  have hperm := List.mergeSort_perm (Deposit.keys ds c)
    fun a b => decide (fileName a ≤ fileName b)
  obtain ⟨vs, hvs, hall⟩ := exists_mapM_eq_ok fun k hk =>
    h.loadAt hds path (hperm.mem_iff.1 hk)
  refine ⟨vs, ?_, _, hperm, pairwise_fileName (Deposit.nodup_keys ds c), hall⟩
  rw [h.documentNames, List.mapM_map]
  exact hvs

end Files.Tree.Shelves

end Folders

end BuildPipeline
