import BuildPipeline.Proofs.Deposits
import BuildPipeline.Proofs.FileTrees

/-!
Stores in memory and in files show the same documents.  A store in files shows them in the order of
their file names and with sorted keys, and it refuses whole numbers with too many digits.
-/

namespace BuildPipeline

open Files Files.Tree DirectoryStore
open Yaml (Portable)

variable {ds : List Deposit} {d : Deposit} {c k : String} {v w : Value} {text : String}
  {root : Place}

section Memory

/-- A store in memory that took some documents. -/
structure MemoryStore.Holds (m : MemoryStore) (ds : List Deposit) : Prop where
  keys : ∀ c, (m.collection c).keys = Deposit.keys ds c
  get? : ∀ c k, Table.get? (m.collection c) k = Deposit.last ds c k

variable {m : MemoryStore}

theorem MemoryStore.collection_put (m : MemoryStore) (c k : String) (v : Value) (c' : String) :
    (m.put c k v).collection c'
      = if c = c' then Table.insert (m.collection c) k v else m.collection c' := by
  rw [collection, put, Table.modify, Table.getD, Table.get?_insert]
  by_cases h : c = c' <;> simp [h, collection, Table.getD]

theorem MemoryStore.Holds.put (h : m.Holds ds) (d : Deposit) :
    (m.put d.collection d.key d.document).Holds (ds ++ [d]) where
  keys c := by
    rw [collection_put, Deposit.keys_append]
    by_cases hc : d.collection = c
    · subst hc
      rw [if_pos rfl, Table.keys_insert, h.keys]
      by_cases hk : d.key ∈ Deposit.keys ds d.collection <;> simp [hk]
    · simp [hc, h.keys]
  get? c k := by
    rw [collection_put, Deposit.last_append]
    by_cases hc : d.collection = c
    · subst hc
      rw [if_pos rfl, Table.get?_insert, h.get?]
      simp
    · simp [hc, h.get?]

theorem MemoryStore.Holds.get (h : m.Holds ds) (c k : String) :
    m.get c k = (Deposit.last ds c k).bind Value.present? := by
  rw [MemoryStore.get, h.get?]

theorem MemoryStore.Holds.list (h : m.Holds ds) (c : String) :
    (m.list c).map some = (Deposit.keys ds c).map (Deposit.last ds c) := by
  have hdistinct : Table.Distinct (m.collection c) := by
    rw [Table.distinct_iff, h.keys]
    exact Deposit.nodup_keys ds c
  rw [MemoryStore.list, Table.values, ← h.keys, Table.keys, List.map_map, List.map_map]
  refine List.map_congr_left fun e he => ?_
  exact ((h.get? c e.1).symm.trans (Table.get?_of_mem hdistinct he)).symm

end Memory

section Directory

variable {s : DirectoryStore}

/-- A store in files that took some documents: one file for each, in a folder for each collection,
and nothing else below its own folder. -/
structure DirectoryStore.Holds (s : DirectoryStore) (ds : List Deposit) : Prop where
  up : ".." ∉ s.root
  files : ∀ c k, (s.tree.file? (s.root ++ [c, fileName k])).map .ok
    = (Deposit.last ds c k).map (Json.write .indented)
  names : ∀ c, s.tree.files.keys.filterMap (nameIn (s.root ++ [c]))
    = (Deposit.keys ds c).map fileName
  folders : ∀ p, s.tree.isFolder p
    ↔ p <+: s.root ∨ ∃ d ∈ ds, p = s.root ++ [d.collection]

theorem DirectoryStore.holds_empty (hroot : ".." ∉ root) : (empty root).Holds [] where
  up := hroot
  files c k := by
    rw [file?, DirectoryStore.empty, files_foldl_addFolder]
    rfl
  names c := by
    rw [DirectoryStore.empty, files_foldl_addFolder]
    rfl
  folders p := by
    have habove : p <+: root ↔ p ∈ above root ∨ p = root := by
      rw [mem_above]
      refine ⟨fun h => ?_, fun h => h.elim And.left fun heq => heq ▸ List.prefix_refl _⟩
      exact (em (p = root)).elim .inr fun hne => .inl ⟨h, hne⟩
    have hnil : p = [] → p ∈ above root ∨ p = root := fun h => habove.1 (h ▸ List.nil_prefix)
    rw [DirectoryStore.empty, isFolder_foldl_addFolder, List.mem_append, List.mem_singleton, habove,
      isFolder_iff]
    simpa [Files.Tree.empty] using hnil

theorem DirectoryStore.Holds.write (h : s.Holds ds)
    (htext : Json.write .indented d.document = .ok text) :
    { s with tree := s.tree.write (s.root ++ [d.collection, fileName d.key]) text : DirectoryStore
      }.Holds (ds ++ [d]) where
  up := h.up
  files c k := by
    have hplace : s.root ++ [d.collection, fileName d.key] = s.root ++ [c, fileName k]
        ↔ d.collection = c ∧ d.key = k := by simp [fileName_injective.eq_iff]
    rw [file?_write, Deposit.last_append]
    by_cases hck : d.collection = c ∧ d.key = k
    · rw [if_pos (hplace.2 hck), if_pos hck, Option.map_some, Option.map_some, htext]
    · rw [if_neg (mt hplace.1 hck), if_neg hck, h.files]
  names c := by
    have hkeys : s.root ++ [d.collection, fileName d.key] ∈ s.tree.files.keys
        ↔ d.key ∈ Deposit.keys ds d.collection := by
      rw [Table.mem_keys_iff, Deposit.mem_keys_iff_last, ← Option.isSome_map, ← file?, h.files,
        Option.isSome_map]
    have hname : nameIn (s.root ++ [c]) (s.root ++ [d.collection, fileName d.key])
        = if d.collection = c then some (fileName d.key) else none := by
      rw [List.append_cons _ d.collection, nameIn_append]
      simp
    rw [files_write, Table.keys_insert, Deposit.keys_append]
    by_cases hk : d.key ∈ Deposit.keys ds d.collection
    · rw [if_pos (hkeys.2 hk), h.names, if_neg]
      rintro ⟨rfl, hnew⟩
      exact hnew hk
    · rw [if_neg (mt hkeys.1 hk), List.filterMap_append, h.names]
      by_cases hc : d.collection = c
      · subst hc
        simp [hk, hname]
      · simp [hc, hname]
  folders p := by
    have hprefix : p <+: s.root ++ [d.collection, fileName d.key]
          ∧ p ≠ s.root ++ [d.collection, fileName d.key]
        ↔ p <+: s.root ∨ p = s.root ++ [d.collection] := by
      have hfolder : p <+: s.root ++ [d.collection] ↔ p = s.root ++ [d.collection] ∨ p <+: s.root :=
        List.prefix_concat_iff
      rw [List.append_cons _ d.collection, List.prefix_concat_iff, or_comm (a := p <+: s.root),
        ← hfolder]
      refine ⟨fun h => h.1.resolve_left h.2, fun hp => ⟨.inr hp, fun heq => ?_⟩⟩
      have hlength := hp.length_le
      simp [heq] at hlength
    rw [isFolder_write, h.folders, hprefix]
    simp only [List.mem_append, List.mem_singleton, or_and_right, exists_or, exists_eq_left]
    rw [or_or_or_comm, or_self]

/-- A document is taken unless it has a whole number with too many digits. -/
theorem DirectoryStore.Holds.put (h : s.Holds ds) (hd : d.Proper) :
    if d.document.Short then
      ∃ s', s.put d.collection d.key d.document = .ok s' ∧ s'.Holds (ds ++ [d])
    else s.put d.collection d.key d.document = .error (.writing .tooLong) := by
  rw [put_of_isSafe s hd.collection.isSafe hd.key.isSafe]
  split
  · rename_i hshort
    obtain ⟨text, htext⟩ := (Json.exists_write_iff (l := .indented) hd.document).2 hshort
    rw [htext]
    exact ⟨_, rfl, h.write htext⟩
  · rename_i hlong
    rw [Json.write_eq_error (.of_portable hd.document) hlong]
    rfl

theorem DirectoryStore.Holds.get (h : s.Holds ds) (hds : ∀ d ∈ ds, Portable d.document)
    (hc : SafeName c) (hk : SafeName k) : ∃ v, s.get c k = .ok v
      ∧ Option.Rel Value.Reordered v ((Deposit.last ds c k).bind Value.present?) := by
  have hfile := h.files c k
  rw [get_of_isSafe s hc.isSafe hk.isSafe]
  cases hlast : Deposit.last ds c k with
  | none =>
    rw [hlast, Option.map_none, Option.map_eq_none_iff] at hfile
    rw [hfile]
    exact ⟨none, rfl, .none⟩
  | some v =>
    rw [hlast, Option.map_some, Option.map_eq_some_iff] at hfile
    obtain ⟨text, hfile, htext⟩ := hfile
    obtain ⟨d, hd, -, -, rfl⟩ := Deposit.exists_of_last hlast
    rw [hfile]
    dsimp only
    have hjson := Value.IsJson.of_portable (hds d hd)
    rw [load_write hjson htext.symm]
    exact ⟨_, rfl, rel_present?_sorted hjson⟩

theorem DirectoryStore.Holds.find (h : s.Holds ds) (hc : SafeName c) :
    s.tree.find (s.folderPath c)
      = if s.tree.isFolder (s.root ++ [c]) then some (.folder (s.root ++ [c]))
        else (s.tree.file? (s.root ++ [c])).map .file := by
  have hpath : s.folderPath c = ⟨"", s.root ++ [c]⟩ := by
    rw [folderPath, hc.path]
    rfl
  have hup : ".." ∉ s.root ++ [c] := by simpa using ⟨h.up, hc.above.symm⟩
  rw [hpath]
  refine find_eq hup fun p hp hne => (h.folders p).2 (.inl ?_)
  exact (List.prefix_concat_iff.1 hp).resolve_left hne

theorem DirectoryStore.Holds.shelves (h : s.Holds ds) (c : String) :
    s.tree.Shelves (s.root ++ [c]) ds c where
  clear name _ hfolder := by
    have hlength : (s.root ++ [c] ++ [name]).length ≤ s.root.length + 1 := by
      rcases (h.folders _).1 hfolder with hp | ⟨d, -, hp⟩
      · exact hp.length_le.trans (Nat.le_succ _)
      · simp [hp]
    simp only [List.length_append, List.length_singleton] at hlength
    omega
  names := h.names c
  files k := by
    rw [List.append_assoc, List.singleton_append]
    exact h.files c k

theorem DirectoryStore.Holds.list (h : s.Holds ds) (hds : ∀ d ∈ ds, Portable d.document)
    (hc : SafeName c) : ∃ ks vs, s.list c = .ok vs ∧ ks.Perm (Deposit.keys ds c)
      ∧ ks.Pairwise (fun a b => fileName a < fileName b)
      ∧ List.Forall₂ (fun k v => ∃ w, Deposit.last ds c k = some w ∧ Value.Reordered v w)
        ks vs := by
  have hfind := h.find hc
  by_cases hfolder : s.tree.isFolder (s.root ++ [c])
  · obtain ⟨vs, hvs, ks, hks⟩ := (h.shelves c).mapM_loadAt
      (fun d hd => .of_portable (hds d hd)) (s.folderPath c)
    refine ⟨ks, vs, ?_, hks⟩
    rw [if_pos hfolder] at hfind
    rw [DirectoryStore.list, hfind]
    exact hvs
  · have hkeys : Deposit.keys ds c = [] := List.eq_nil_iff_forall_not_mem.2 fun k hk => by
      obtain ⟨d, hd, rfl, -⟩ := Deposit.mem_keys.1 hk
      exact hfolder ((h.folders _).2 (.inr ⟨d, hd, rfl⟩))
    refine ⟨[], [], ?_, hkeys ▸ .nil, .nil, .nil⟩
    rw [if_neg hfolder] at hfind
    rw [DirectoryStore.list, hfind]
    cases s.tree.file? (s.root ++ [c]) <;> rfl

end Directory

section Equivalence

/-- Puts documents in a store, one after another.  What is refused changes nothing. -/
def Backing.putAll (b : Backing) (ds : List Deposit) : Backing :=
  ds.foldl (fun b d => (b.put d.collection d.key d.document).toOption.getD b) b

theorem Backing.putAll_append (b : Backing) (ds : List Deposit) (d : Deposit) :
    b.putAll (ds ++ [d])
      = ((b.putAll ds).put d.collection d.key d.document).toOption.getD (b.putAll ds) := by
  rw [putAll, List.foldl_append]
  rfl

theorem holds_putAll_memory (ds : List Deposit) :
    ∃ m, Backing.putAll (.memory .empty) ds = .memory m ∧ m.Holds ds := by
  induction ds using List.reverseRecOn with
  | nil => exact ⟨.empty, rfl, fun _ => rfl, fun _ _ => rfl⟩
  | append_singleton ds d ih =>
    obtain ⟨m, hm, hholds⟩ := ih
    rw [Backing.putAll_append, hm]
    exact ⟨_, rfl, hholds.put d⟩

theorem holds_putAll_directory (hroot : ".." ∉ root) (hds : ∀ d ∈ ds, d.Proper) :
    ∃ s, Backing.putAll (.directory (.empty root)) ds = .directory s
      ∧ s.Holds (ds.filter (·.document.Short)) := by
  induction ds using List.reverseRecOn with
  | nil => exact ⟨.empty root, rfl, holds_empty hroot⟩
  | append_singleton ds d ih =>
    obtain ⟨hinit, hlast⟩ := List.forall_mem_append.1 hds
    obtain ⟨s, hs, hholds⟩ := ih hinit
    have hput := hholds.put (hlast d List.mem_cons_self)
    rw [Backing.putAll_append, hs, List.filter_append]
    split at hput
    · rename_i hshort
      obtain ⟨s', hput, hholds'⟩ := hput
      rw [Backing.put, hput]
      exact ⟨s', rfl, by simpa [hshort] using hholds'⟩
    · rename_i hlong
      rw [Backing.put, hput]
      exact ⟨s, rfl, by simpa [hlong] using hholds⟩

def filed : Value := .ofTable [("z", .str "\r\n"), ("b", .int (-2))]

/-- A collection with one document under two keys, one after the other, between them the same key in
another collection, and a file name that comes before the one whose key it extends. -/
def deposits : List Deposit :=
  [⟨"logs", "a", .list [.null]⟩, ⟨"builds", "a", .str "other"⟩, ⟨"logs", "a-b", .bool true⟩,
    ⟨"logs", "a", filed⟩]

end Equivalence

end BuildPipeline
