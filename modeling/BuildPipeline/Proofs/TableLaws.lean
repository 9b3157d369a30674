import BuildPipeline.Table
import Mathlib.Data.List.Perm.Subperm

/-! Laws of tables whose keys are distinct: a key is written where it stands, and a new one comes
last. -/

namespace BuildPipeline.Table

variable {κ α β : Type}

section Keys

variable {t u : Table κ α}

theorem keys_cons (e : κ × α) (t : Table κ α) : keys (e :: t) = e.1 :: keys t := rfl

theorem keys_append : keys (t ++ u) = keys t ++ keys u := List.map_append

theorem keys_filterMap_sublist {ks : List κ} {f : κ → Option (κ × α)}
    (h : ∀ k e, f k = some e → e.1 = k) : (keys (ks.filterMap f)).Sublist ks := by
  induction ks with
  | nil => exact List.Sublist.refl _
  | cons k ks ih =>
    cases hk : f k with
    | none =>
      rw [List.filterMap_cons_none hk]
      exact ih.cons k
    | some e =>
      rw [List.filterMap_cons_some hk]
      exact h k e hk ▸ ih.cons_cons e.1

end Keys

variable [BEq κ]

/-- Keys that the table does not have. -/
def Fresh (t : Table κ α) (k : κ) : Prop := ∀ e ∈ t, (e.1 == k) = false

/-- No two keys of the table are one. -/
def Distinct (t : Table κ α) : Prop := t.Pairwise fun e f => (e.1 == f.1) = false

variable {t u : Table κ α} {k : κ}

instance : Decidable (t.Fresh k) :=
  inferInstanceAs (Decidable (∀ e ∈ t, (e.1 == k) = false))

instance : Decidable t.Distinct :=
  inferInstanceAs (Decidable (t.Pairwise fun e f => (e.1 == f.1) = false))

theorem Fresh.of_cons {e : κ × α} (h : Fresh (e :: t) k) : (e.1 == k) = false ∧ Fresh t k :=
  ⟨h e List.mem_cons_self, fun f hf => h f (List.mem_cons_of_mem _ hf)⟩

theorem get?_append_of_fresh (h : Fresh t k) : get? (t ++ u) k = get? u k := by
  induction t with
  | nil => rfl
  | cons e t ih =>
    obtain ⟨he, ht⟩ := h.of_cons
    simp [get?, he, ih ht]

theorem get?_append (t u : Table κ α) (k : κ) : get? (t ++ u) k = (get? t k).or (get? u k) := by
  induction t with
  | nil => rfl
  | cons e t ih =>
    rw [List.cons_append, get?, get?]
    split
    · rfl
    · exact ih

theorem get?_insertNew [LawfulBEq κ] (t : Table κ α) (k k' : κ) (a : α) :
    get? (insertNew t k a) k' = (get? t k').or (if k == k' then some a else none) := by
  rw [insertNew, contains]
  split
  · rename_i h
    by_cases hk : k = k'
    · subst hk
      exact (Option.or_of_isSome h).symm
    · simp [hk]
  · exact get?_append t _ k'

theorem insert_of_fresh (h : Fresh t k) (a : α) : insert t k a = t ++ [(k, a)] := by
  induction t with
  | nil => rfl
  | cons e t ih =>
    obtain ⟨he, ht⟩ := h.of_cons
    simp [insert, he, ih ht]

theorem get?_union [EquivBEq κ] (h : Fresh u k) : get? (union t u) k = get? t k := by
  rw [union]
  induction u generalizing t with
  | nil => rfl
  | cons e u ih =>
    obtain ⟨he, hu⟩ := h.of_cons
    rw [List.foldl_cons, ih hu, get?_insert, he]
    rfl

theorem get?_append_cons [ReflBEq κ] (h : Fresh t k) (a : α) :
    get? (t ++ (k, a) :: u) k = some a := by
  simp [get?_append_of_fresh h, get?]

theorem insert_append_cons [ReflBEq κ] (h : Fresh t k) (a b : α) :
    insert (t ++ (k, a) :: u) k b = t ++ (k, b) :: u := by
  induction t with
  | nil => simp [insert]
  | cons e t ih =>
    obtain ⟨he, ht⟩ := h.of_cons
    simp [insert, he, ih ht]

theorem fresh_iff [LawfulBEq κ] : Fresh t k ↔ k ∉ t.keys := by
  simp only [Fresh, keys, List.mem_map, beq_eq_false_iff_ne]
  exact ⟨fun h ⟨e, he, hk⟩ => h e he hk, fun h e he hk => h ⟨e, he, hk⟩⟩

theorem Distinct.fresh {e : κ × α} (h : Distinct (t ++ e :: u)) : Fresh t e.1 := fun f hf =>
  (List.pairwise_append.1 h).2.2 f hf e List.mem_cons_self

theorem union_of_distinct (h : Distinct (t ++ u)) : union t u = t ++ u := by
  rw [union]
  induction u generalizing t with
  | nil => simp
  | cons e u ih =>
    rw [List.foldl_cons, insert_of_fresh h.fresh, ih (by simpa using h)]
    simp

theorem ofList_of_distinct {es : List (κ × α)} (h : Distinct es) : ofList es = es :=
  union_of_distinct (by simpa using h)

theorem mem_keys_insert {a : α} {j : κ} (h : j ∈ keys (insert t k a)) : j ∈ keys t ∨ j = k := by
  induction t with
  | nil => exact .inr (by simpa [insert, keys] using h)
  | cons e t ih =>
    by_cases he : e.1 == k
    · exact .inl (by simpa [insert, keys, he] using h)
    · simp only [insert, keys, he, List.map_cons, List.mem_cons, Bool.false_eq_true,
        ite_false] at h ⊢
      rcases h with rfl | h
      · exact .inl (.inl rfl)
      · exact (ih h).imp_left .inr

theorem keys_insert [LawfulBEq κ] [DecidableEq κ] (t : Table κ α) (k : κ) (a : α) :
    keys (insert t k a) = if k ∈ keys t then keys t else keys t ++ [k] := by
  induction t with
  | nil => rfl
  | cons e t ih =>
    rw [insert]
    by_cases he : e.1 = k
    · simp [he, keys_cons]
    · by_cases hk : k ∈ keys t <;> simp [ih, hk, he, Ne.symm he, keys_cons]

theorem keys_insert_eq (t : Table κ α) (k : κ) (a : α) :
    keys (insert t k a) = if contains t k then keys t else keys t ++ [k] := by
  induction t with
  | nil => rfl
  | cons e t ih =>
    rw [insert, contains, get?]
    by_cases he : e.1 == k
    · simp [he, keys_cons]
    · rw [if_neg he, if_neg he, keys_cons, keys_cons, ih, contains]
      split <;> rfl

theorem mem_keys_iff [LawfulBEq κ] : k ∈ keys t ↔ (get? t k).isSome := by
  induction t with
  | nil => simp [keys]
  | cons e t ih =>
    rw [get?]
    by_cases he : e.1 = k
    · simp [he, keys_cons]
    · simp [he, Ne.symm he, keys_cons, ih]

theorem mem_keys_union {j : κ} (h : j ∈ keys (union t u)) : j ∈ keys t ∨ j ∈ keys u := by
  rw [union] at h
  induction u generalizing t with
  | nil => exact .inl h
  | cons e u ih =>
    rcases ih h with h | h
    · refine (mem_keys_insert h).imp_right fun hj => ?_
      simp [keys, hj]
    · refine .inr ?_
      simp only [keys, List.map_cons, List.mem_cons]
      exact .inr h

theorem mem_keys_ofList {j : κ} (h : j ∈ keys (ofList u)) : j ∈ keys u :=
  (mem_keys_union h).resolve_left List.not_mem_nil

/-- A key that is there keeps its first spelling, but the value is the new one. -/
theorem mem_insert_values {a : α} {e : κ × α} (h : e ∈ insert t k a) : e ∈ t ∨ e.2 = a := by
  induction t with
  | nil => exact .inr (congrArg Prod.snd (List.mem_singleton.1 h))
  | cons f t ih =>
    rw [insert] at h
    split at h
    · rcases List.mem_cons.1 h with rfl | h
      · exact .inr rfl
      · exact .inl (List.mem_cons_of_mem f h)
    · rcases List.mem_cons.1 h with rfl | h
      · exact .inl List.mem_cons_self
      · exact (ih h).imp_left (List.mem_cons_of_mem f)

theorem mem_insert [LawfulBEq κ] {a : α} {e : κ × α} (h : e ∈ insert t k a) :
    e ∈ t ∨ e = (k, a) := by
  induction t with
  | nil => exact .inr (List.mem_singleton.1 h)
  | cons f t ih =>
    rw [insert] at h
    split at h
    · rename_i hk
      rw [eq_of_beq hk] at h
      exact (List.mem_cons.1 h).symm.imp_left (List.mem_cons_of_mem f)
    · rcases List.mem_cons.1 h with rfl | h
      · exact .inl List.mem_cons_self
      · exact (ih h).imp_left (List.mem_cons_of_mem f)

theorem mem_union [LawfulBEq κ] {e : κ × α} (h : e ∈ union t u) : e ∈ t ∨ e ∈ u := by
  rw [union] at h
  induction u generalizing t with
  | nil => exact .inl h
  | cons f u ih =>
    rcases ih h with h | h
    · refine (mem_insert h).imp_right ?_
      rintro rfl
      exact List.mem_cons_self
    · exact .inr (List.mem_cons_of_mem f h)

theorem Distinct.mapValues (h : Distinct t) (f : α → β) : Distinct (mapValues f t) :=
  List.pairwise_map.2 h

theorem distinct_iff [LawfulBEq κ] : Distinct t ↔ t.keys.Nodup := by
  simp only [Distinct, keys, List.Nodup, List.pairwise_map, beq_eq_false_iff_ne]

theorem distinct_of_keys [LawfulBEq κ] {ks : List κ} (h : t.keys.Sublist ks) (hks : ks.Nodup) :
    Distinct t :=
  distinct_iff.2 (hks.sublist h)

theorem Distinct.insert [EquivBEq κ] (h : Distinct t) (k : κ) (a : α) :
    Distinct (insert t k a) := by
  induction t with
  | nil => exact List.pairwise_singleton _ _
  | cons e t ih =>
    obtain ⟨he, ht⟩ := List.pairwise_cons.1 h
    rw [Table.insert]
    split
    · exact List.pairwise_cons.2 ⟨he, ht⟩
    · rename_i hk
      refine List.pairwise_cons.2 ⟨fun f hf => ?_, ih ht⟩
      rcases mem_keys_insert (List.mem_map_of_mem hf) with hmem | hfk
      · obtain ⟨g, hg, hgf⟩ := List.mem_map.1 hmem
        exact hgf ▸ he g hg
      · exact hfk ▸ Bool.eq_false_iff.2 hk

theorem Distinct.union [EquivBEq κ] (h : Distinct t) : Distinct (union t u) := by
  rw [Table.union]
  induction u generalizing t with
  | nil => exact h
  | cons e u ih => exact ih (h.insert e.1 e.2)

theorem distinct_ofList [EquivBEq κ] (es : List (κ × α)) : Distinct (ofList es) :=
  Distinct.union List.Pairwise.nil

theorem mem_of_get? {a : α} (h : get? t k = some a) : ∃ e ∈ t, e.2 = a := by
  induction t with
  | nil => cases h
  | cons e t ih =>
    rw [get?] at h
    split at h
    · injection h with h
      exact ⟨e, List.mem_cons_self, h⟩
    · obtain ⟨f, hf, hfa⟩ := ih h
      exact ⟨f, List.mem_cons_of_mem e hf, hfa⟩

theorem get?_of_mem [EquivBEq κ] (h : Distinct t) {e : κ × α} (he : e ∈ t) :
    get? t e.1 = some e.2 := by
  induction t with
  | nil => cases he
  | cons f t ih =>
    obtain ⟨hf, ht⟩ := List.pairwise_cons.1 h
    rcases List.mem_cons.1 he with rfl | he
    · simp [get?]
    · simp [get?, hf e he, ih ht he]

theorem get?_eq_none_iff : get? t k = none ↔ Fresh t k := by
  induction t with
  | nil => simp [Fresh]
  | cons e t ih =>
    rw [get?]
    by_cases he : e.1 == k <;> simp_all [Fresh]

theorem contains_of_mem_keys [ReflBEq κ] (h : k ∈ keys t) : contains t k := by
  obtain ⟨e, he, rfl⟩ := List.mem_map.1 h
  rw [contains, ← Option.not_isNone, Bool.not_eq_true', Option.isNone_eq_false_iff,
    Option.isSome_iff_ne_none, ne_eq, get?_eq_none_iff]
  exact fun hfresh => by simpa using hfresh e he

theorem mem_of_get?_eq [LawfulBEq κ] {a : α} (h : get? t k = some a) : (k, a) ∈ t := by
  induction t with
  | nil => cases h
  | cons e t ih =>
    rw [get?] at h
    split at h
    · rename_i hk
      cases h
      rw [← eq_of_beq hk]
      exact List.mem_cons_self
    · exact List.mem_cons_of_mem e (ih h)

theorem get?_mapValues (f : α → β) (t : Table κ α) (k : κ) :
    get? (mapValues f t) k = (get? t k).map f := by
  induction t with
  | nil => rfl
  | cons e t ih =>
    rw [mapValues, List.map_cons, get?, get?]
    split
    · rfl
    · exact ih

theorem Distinct.nodup [ReflBEq κ] (h : Distinct t) : t.Nodup :=
  h.imp fun {e f} hef heq => by simp [heq] at hef

theorem Distinct.perm [EquivBEq κ] (h : Distinct t) (hp : t.Perm u) : Distinct u :=
  hp.pairwise h fun {e f} hef => by rwa [BEq.comm]

theorem get?_eq_some_iff [LawfulBEq κ] (h : Distinct t) {a : α} :
    get? t k = some a ↔ (k, a) ∈ t := ⟨mem_of_get?_eq, get?_of_mem h⟩

theorem get?_of_perm [LawfulBEq κ] (h : Distinct t) (hp : t.Perm u) (k : κ) :
    get? u k = get? t k := by
  ext a
  rw [get?_eq_some_iff h, get?_eq_some_iff (h.perm hp), hp.mem_iff]

/-- Tables hold the same entries if they have the same size and each entry of one is found in the
other. -/
theorem perm_iff [LawfulBEq κ] (h : Distinct t) :
    t.Perm u ↔ t.length = u.length ∧ ∀ e ∈ t, get? u e.1 = some e.2 := by
  constructor
  · exact fun hp => ⟨hp.length_eq, fun e he => get?_of_mem (h.perm hp) (hp.mem_iff.1 he)⟩
  · rintro ⟨hlength, hfound⟩
    have hsub : t ⊆ u := fun e he => mem_of_get?_eq (hfound e he)
    exact (List.subperm_of_subset h.nodup hsub).perm_of_length_le (Nat.le_of_eq hlength.symm)

section Equivalence

variable [EquivBEq κ] {k' : κ}

theorem get?_congr (h : k == k') : get? t k = get? t k' := by
  induction t with
  | nil => rfl
  | cons e t ih => rw [get?, get?, BEq.congr_right h, ih]

theorem getD_congr (h : k == k') (a : α) : getD t k a = getD t k' a := by
  rw [getD, get?_congr h, getD]

theorem contains_insert (t : Table κ α) (k : κ) (a : α) (k' : κ) :
    contains (insert t k a) k' = (k == k' || contains t k') := by
  rw [contains, get?_insert, contains]
  cases k == k' <;> simp

theorem get?_tail_eq_none {e : κ × α} (h : Distinct (e :: t)) (hk : e.1 == k) :
    get? t k = none := by
  rw [← get?_congr hk]
  exact get?_eq_none_iff.2 fun f hf => by rw [BEq.comm, (List.pairwise_cons.1 h).1 f hf]

theorem get?_union_of_distinct {t u : Table κ α} (h : Distinct u) (k : κ) :
    get? (union t u) k = (get? u k).or (get? t k) := by
  rw [union]
  induction u generalizing t with
  | nil => rfl
  | cons e u ih =>
    rw [List.foldl_cons, ih (List.pairwise_cons.1 h).2, get?_insert, get?]
    cases hk : e.1 == k with
    | true => simp [get?_tail_eq_none h hk]
    | false => simp

theorem getD_modify (t : Table κ α) (k k' : κ) (a : α) (f : α → α) :
    getD (modify t k a f) k' a = if k == k' then f (getD t k a) else getD t k' a := by
  rw [modify, getD, get?_insert]
  split
  · rfl
  · rfl

/-- Tables with the same keys that show the same under each of them are one. -/
theorem ext_of_keys (ht : Distinct t) (hkeys : keys t = keys u)
    (hget : ∀ k ∈ keys t, get? t k = get? u k) : t = u := by
  induction t generalizing u with
  | nil => exact (List.map_eq_nil_iff.1 hkeys.symm).symm
  | cons e t ih =>
    cases u with
    | nil => cases hkeys
    | cons f u =>
      obtain ⟨k, a⟩ := e
      obtain ⟨k', b⟩ := f
      obtain ⟨hnew, ht⟩ := List.pairwise_cons.1 ht
      obtain ⟨hk, hrest⟩ := List.cons.inj hkeys
      obtain rfl : k = k' := hk
      have hab : a = b := by simpa [get?] using hget k List.mem_cons_self
      have htail : t = u := ih ht hrest fun j hj => by
        obtain ⟨e, he, rfl⟩ := List.mem_map.1 hj
        simpa [get?, hnew e he] using hget e.1 (List.mem_cons_of_mem k hj)
      rw [hab, htail]

end Equivalence

end BuildPipeline.Table
