import BuildPipeline.Proofs.RecordStorage

/-!
One document is put into a store: what the store shows there afterwards, and elsewhere.
-/

namespace BuildPipeline

open Files DirectoryStore

variable {c c' k k' : String} {v : Value}

/-- A document is looked up in its own file. -/
theorem DirectoryStore.get_congr {s s' : DirectoryStore} (hroot : s'.root = s.root)
    (hfile : s'.tree.file? (s.root ++ [c, fileName k]) = s.tree.file? (s.root ++ [c, fileName k])) :
    s'.get c k = s.get c k := by
  by_cases hc : isSafe c
  · by_cases hk : isSafe k
    · rw [get_of_isSafe _ hc hk, get_of_isSafe _ hc hk, hroot, hfile]
    · rw [DirectoryStore.get, DirectoryStore.get, place, place, checkName, checkName, if_pos hc,
        if_neg hk]
      rfl
  · rw [DirectoryStore.get, DirectoryStore.get, place, place, checkName, if_neg hc]
    rfl

namespace Backing

variable {b b' b'' : Backing}

/-- A document as it comes back. -/
def kept (b : Backing) (v : Value) : Value :=
  match b with
  | .memory _ => v
  | .directory _ => v.sorted

theorem kept_of_isJson (b : Backing) (hv : v.IsJson) :
    (b.kept v).IsJson ∧ Value.Reordered (b.kept v) v := by
  cases b with
  | memory s => exact ⟨hv, (hv.reordered_iff hv).2 rfl⟩
  | directory s => exact ⟨hv.sorted, hv.reordered_sorted⟩

theorem kept_dict (b : Backing) (d : Dict) : ∃ d', b.kept (.dict d) = .dict d' := by
  cases b with
  | memory s => exact ⟨d, rfl⟩
  | directory s => exact ⟨d.inKeyOrder, sorted_dict d⟩

theorem get_put_self (h : b.put c k v = .ok b') (hv : v.IsJson) :
    b'.get c k = .ok (b.kept v).present? := by
  cases b with
  | memory s =>
    cases h
    rw [Backing.get, MemoryStore.get, MemoryStore.collection_put, if_pos rfl, Table.get?_insert,
      if_pos (beq_self_eq_true k)]
    rfl
  | directory s =>
    obtain ⟨s', hs', rfl⟩ := map_eq_ok.1 h
    exact DirectoryStore.get_put_self hs' hv

/-- Two stores of one kind that differ in one document at most. -/
inductive Beside (c k : String) : Backing → Backing → Prop
  | memory {m m' : MemoryStore} : (∀ c', c' ≠ c → m'.collection c' = m.collection c') →
    (∀ k', k' ≠ k → Table.get? (m'.collection c) k' = Table.get? (m.collection c) k') →
    Beside c k (.memory m) (.memory m')
  | directory {s s' : DirectoryStore} : s'.root = s.root →
    (∀ p, p ≠ s.root ++ [c, fileName k] → s'.tree.file? p = s.tree.file? p) →
    Beside c k (.directory s) (.directory s')

namespace Beside

theorem refl (c k : String) (b : Backing) : Beside c k b b := by
  cases b with
  | memory m => exact .memory (fun _ _ => rfl) fun _ _ => rfl
  | directory s => exact .directory rfl fun _ _ => rfl

theorem trans (h : Beside c k b b') (h' : Beside c k b' b'') : Beside c k b b'' := by
  cases h with
  | memory hother hkeys =>
    cases h' with
    | memory hother' hkeys' =>
      exact .memory (fun c' hc => (hother' c' hc).trans (hother c' hc)) fun k' hk =>
        (hkeys' k' hk).trans (hkeys k' hk)
  | directory hroot hfiles =>
    cases h' with
    | directory hroot' hfiles' =>
      exact .directory (hroot'.trans hroot) fun p hp =>
        (hfiles' p (hroot ▸ hp)).trans (hfiles p hp)

theorem put (h : b.put c k v = .ok b') : Beside c k b b' := by
  cases b with
  | memory m =>
    cases h
    refine .memory (fun c' hc => ?_) fun k' hk => ?_
    · rw [MemoryStore.collection_put, if_neg hc.symm]
    · rw [MemoryStore.collection_put, if_pos rfl, Table.get?_insert, if_neg (by simpa using hk.symm)]
  | directory s =>
    obtain ⟨s', hs', rfl⟩ := map_eq_ok.1 h
    obtain ⟨-, text, -, rfl⟩ := DirectoryStore.put_eq_ok.1 hs'
    exact .directory rfl fun p hp => by rw [Tree.file?_write, if_neg hp.symm]

theorem get (h : Beside c k b b') (hne : ¬(c' = c ∧ k' = k)) : b'.get c' k' = b.get c' k' := by
  cases h with
  | memory hother hkeys =>
    rw [Backing.get, Backing.get, MemoryStore.get, MemoryStore.get]
    by_cases hc : c' = c
    · subst hc
      rw [hkeys k' fun hk => hne ⟨rfl, hk⟩]
    · rw [hother c' hc]
  | directory hroot hfiles =>
    refine DirectoryStore.get_congr hroot (hfiles _ fun hplace => hne ?_)
    simpa [fileName_injective.eq_iff] using hplace

end Beside

/-- A document lies in a store, in files as its text. -/
def Holds (b : Backing) (c k : String) (v : Value) : Prop :=
  match b with
  | .memory m => Table.get? (m.collection c) k = some v
  | .directory s => ∃ text, Json.write .indented v = .ok text
    ∧ s.tree.file? (s.root ++ [c, fileName k]) = some text

theorem holds_put (h : b.put c k v = .ok b') : b'.Holds c k v := by
  cases b with
  | memory m =>
    cases h
    rw [Holds, MemoryStore.collection_put, if_pos rfl, Table.get?_insert, if_pos (by simp)]
  | directory s =>
    obtain ⟨s', hs', rfl⟩ := map_eq_ok.1 h
    obtain ⟨-, text, htext, rfl⟩ := DirectoryStore.put_eq_ok.1 hs'
    exact ⟨text, htext, by rw [Tree.file?_write, if_pos rfl]⟩

theorem Beside.kept (h : Beside c k b b') (v : Value) : b'.kept v = b.kept v := by
  cases h <;> rfl

theorem get_put_of_ne (h : b.put c k v = .ok b') (hk : k' ≠ k) : b'.get c k' = b.get c k' :=
  (Beside.put h).get fun hsame => hk hsame.2

end Backing

namespace Store

/-- A write is refused, or it fails, or it puts its document into what backs the store. -/
theorem put_cases (s : Store) (c k : String) (v : Value) :
    (∃ e, (put c k v).run s = .error e { s with puts := s.puts + 1 })
    ∨ ∃ b, s.backing.put c k v = .ok b
      ∧ (put c k v).run s = .ok () { s with puts := s.puts + 1, backing := b } := by
  by_cases hrefused : s.refuses (s.puts + 1)
  · exact .inl ⟨.unavailable c k, by simp [put, hrefused, EStateM.run_bind]⟩
  cases hput : s.backing.put c k v with
  | error e =>
    have hthrow (t : Store) :
        (throw e : EStateM StoreError Store Backing).run t = .error e t := rfl
    exact .inl ⟨e, by simp [put, hrefused, hput, liftExcept, EStateM.run_bind, hthrow]⟩
  | ok b => exact .inr ⟨b, rfl, by simp [put, hrefused, hput, liftExcept, EStateM.run_bind]⟩

end Store

end BuildPipeline
