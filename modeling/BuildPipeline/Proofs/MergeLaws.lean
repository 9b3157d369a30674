import BuildPipeline.Config.Merge
import BuildPipeline.Proofs.DocumentLaws

/-!
Laws of merging: what a merge makes of two values, and of two mappings key by key.
-/

namespace BuildPipeline

/-- A document in which every mapping that is reached through keys has each key once, and no mapping
comes back inside itself. -/
inductive Value.Keyed : Value → Prop
  | dict (es : Dict) (hd : Table.Distinct es) (h : ∀ e ∈ es, Keyed e.2) : Keyed (.dict es)
  | leaf (v : Value) (h : v.kind ≠ .dict) : Keyed v

/-- A document in which every mapping that is reached through keys has each key once. -/
inductive Value.SingleKeyed : Value → Prop
  | dict (es : Dict) (hd : Table.Distinct es) (h : ∀ e ∈ es, SingleKeyed e.2) :
    SingleKeyed (.dict es)
  | leaf (v : Value) (h : ∀ es, v ≠ .dict es) : SingleKeyed v

theorem Value.Keyed.singleKeyed {v : Value} (h : v.Keyed) : v.SingleKeyed := by
  induction h with
  | dict es hd _ ih => exact .dict es hd ih
  | leaf v h => exact .leaf v fun es hv => h (hv ▸ rfl)

theorem Value.Keyed.of_dict {es : Dict} (h : Keyed (.dict es)) :
    Table.Distinct es ∧ ∀ e ∈ es, Keyed e.2 := by
  cases h with
  | dict es hd h => exact ⟨hd, h⟩
  | leaf v h => exact absurd rfl h

theorem Value.Keyed.get? {es : Dict} {k : Scalar} {v : Value} (h : Keyed (.dict es))
    (hv : Table.get? es k = some v) : Keyed v := by
  obtain ⟨e, he, rfl⟩ := Table.mem_of_get? hv
  exact h.of_dict.2 e he

namespace Kind

variable {a b c : Kind}

theorem agrees_iff : a.agrees b ↔ a = b ∨ a.isNumber ∧ b.isNumber := by simp [agrees]

theorem agrees_refl (a : Kind) : a.agrees a := by simp [agrees]

theorem agrees_dict : agrees .dict a ↔ .dict = a := by simp [agrees, isNumber]

/-- Kinds that agree agree with the same kinds. -/
theorem agrees_congr (h : b.agrees c) : a.agrees b ↔ a.agrees c := by
  rw [agrees_iff] at h ⊢
  rw [agrees_iff]
  rcases h with rfl | ⟨hb, hc⟩
  · rfl
  · refine ⟨?_, ?_⟩
    · rintro (rfl | ⟨ha, -⟩)
      · exact .inr ⟨hb, hc⟩
      · exact .inr ⟨ha, hc⟩
    · rintro (rfl | ⟨ha, -⟩)
      · exact .inr ⟨hc, hb⟩
      · exact .inr ⟨ha, hb⟩

end Kind

namespace Config

variable {base above m : Dict} {k : Scalar} {v w u : Value}

section Values

theorem mergeAt_null (k : Scalar) (w : Value) : mergeAt k .null w = .ok w := by
  rw [mergeAt]

theorem mergeAt_over_null (k : Scalar) (v : Value) : mergeAt k v .null = .ok .null := by
  rw [mergeAt.eq_def]
  split <;> simp_all

theorem mergeAt_dict (k : Scalar) (base above : Dict) :
    mergeAt k (.dict base) (.dict above) = (mergeEntries base above).map .dict := by
  rw [mergeAt]
  cases mergeEntries base above <;> rfl

theorem mergeAt_leaf (k : Scalar) (hv : v ≠ .null) (hw : w ≠ .null)
    (hdict : ∀ b o, v = .dict b → w ≠ .dict o) :
    mergeAt k v w = if v.kind.agrees w.kind then .ok w else .error (.key k v.kind w.kind) := by
  rw [mergeAt.eq_def]
  split
  · exact absurd rfl hv
  · exact absurd rfl hw
  · exact absurd rfl (hdict _ _ rfl)
  · rfl

/-- A value, the value over it, and what a merge makes of them. -/
def Merged (v w u : Value) : Prop := ∀ k, mergeAt k v w = .ok u

/-- The key matters only to a conflict. -/
theorem mergeAt_eq_ok : mergeAt k v w = .ok u ↔ Merged v w u := by
  refine ⟨fun h j => ?_, fun h => h k⟩
  by_cases hv : v = .null
  · subst hv
    rwa [mergeAt_null] at h ⊢
  by_cases hw : w = .null
  · subst hw
    rwa [mergeAt_over_null] at h ⊢
  by_cases hdict : ∀ b o, v = .dict b → w ≠ .dict o
  · rw [mergeAt_leaf _ hv hw hdict] at h ⊢
    split at h
    · rwa [if_pos ‹_›]
    · cases h
  · push Not at hdict
    obtain ⟨b, o, rfl, rfl⟩ := hdict
    rwa [mergeAt_dict] at h ⊢

theorem merged_null : Merged .null w u ↔ w = u := by
  rw [← mergeAt_eq_ok (k := .null), mergeAt_null, Except.ok.injEq]

theorem merged_over_null : Merged v .null u ↔ .null = u := by
  rw [← mergeAt_eq_ok (k := .null), mergeAt_over_null, Except.ok.injEq]

theorem merged_dict :
    Merged (.dict base) (.dict above) u ↔ ∃ m, mergeEntries base above = .ok m ∧ .dict m = u := by
  rw [← mergeAt_eq_ok (k := .null), mergeAt_dict, map_eq_ok]

theorem merged_leaf (hv : v ≠ .null) (hw : w ≠ .null) (hdict : ∀ b o, v = .dict b → w ≠ .dict o) :
    Merged v w u ↔ v.kind.agrees w.kind ∧ w = u := by
  rw [← mergeAt_eq_ok (k := .null), mergeAt_leaf _ hv hw hdict]
  split <;> simp_all

theorem Merged.unique {u' : Value} (h : Merged v w u) (h' : Merged v w u') : u = u' :=
  Except.ok.inj ((h .null).symm.trans (h' .null))

end Values

section Entries

/-- What a merge makes of the values of a key, of which either may be missing. -/
def Joined : Option Value → Option Value → Option Value → Prop
  | v, none, u => v = u
  | none, some w, u => some w = u
  | some v, some w, u => ∃ u', Merged v w u' ∧ some u' = u

variable {a b c d : Option Value}

theorem joined_none : Joined none b c ↔ b = c := by cases b <;> rfl

theorem joined_over_none : Joined a none c ↔ a = c := by cases a <;> rfl

theorem joined_some : Joined (some v) (some w) c ↔ ∃ u, Merged v w u ∧ some u = c := Iff.rfl

theorem Joined.unique (hc : Joined a b c) (hd : Joined a b d) : c = d := by
  match a, b, hc, hd with
  | _, none, hc, hd => exact (joined_over_none.1 hc).symm.trans (joined_over_none.1 hd)
  | none, some _, hc, hd => exact hc.symm.trans hd
  | some _, some _, ⟨_, hu, hc⟩, ⟨_, hu', hd⟩ => rw [← hc, ← hd, hu.unique hu']

theorem Joined.isSome (h : Joined a b c) : c.isSome = (a.isSome || b.isSome) := by
  match a, b, h with
  | _, none, h => simp [← joined_over_none.1 h]
  | none, some _, h => simp [← joined_none.1 h]
  | some _, some _, ⟨_, _, h⟩ => simp [← h]

theorem mergeEntries_cons (base : Dict) (k : Scalar) (w : Value) (es : Dict) :
    mergeEntries base ((k, w) :: es) = .ok m
      ↔ ∃ u, Joined (Table.get? base k) (some w) (some u)
        ∧ mergeEntries (Table.insert base k u) es = .ok m := by
  rw [mergeEntries]
  cases Table.get? base k with
  | none => simp [joined_none]
  | some v =>
    dsimp only
    rw [bind_eq_ok]
    refine exists_congr fun u => and_congr_left fun _ => ?_
    rw [mergeAt_eq_ok, joined_some]
    simp

theorem distinct_mergeEntries (hb : Table.Distinct base) (h : mergeEntries base above = .ok m) :
    Table.Distinct m := by
  induction above generalizing base with
  | nil =>
    rw [mergeEntries] at h
    cases h
    exact hb
  | cons e es ih =>
    obtain ⟨u, -, h⟩ := (mergeEntries_cons base e.1 e.2 es).1 h
    exact ih (hb.insert e.1 u) h

/-- The keys of the base, and behind them the new ones. -/
def joinedKeys (base above : Dict) : List Scalar :=
  Table.keys base ++ (Table.keys above).filter fun k => !Table.contains base k

theorem keys_mergeEntries (ho : Table.Distinct above) (h : mergeEntries base above = .ok m) :
    Table.keys m = joinedKeys base above := by
  induction above generalizing base with
  | nil =>
    rw [mergeEntries] at h
    cases h
    simp [joinedKeys, Table.keys]
  | cons e es ih =>
    obtain ⟨hnew, hes⟩ := List.pairwise_cons.1 ho
    obtain ⟨u, -, h⟩ := (mergeEntries_cons base e.1 e.2 es).1 h
    have hrest : (Table.keys es).filter (fun k => !Table.contains (Table.insert base e.1 u) k)
        = (Table.keys es).filter fun k => !Table.contains base k := by
      refine List.filter_congr fun k hk => ?_
      obtain ⟨f, hf, rfl⟩ := List.mem_map.1 hk
      rw [Table.contains_insert, hnew f hf, Bool.false_or]
    rw [ih hes h, joinedKeys, joinedKeys, hrest, Table.keys_insert_eq, Table.keys_cons,
      List.filter_cons]
    cases Table.contains base e.1 <;> simp

theorem joined_mergeEntries (ho : Table.Distinct above) (h : mergeEntries base above = .ok m)
    (k : Scalar) : Joined (Table.get? base k) (Table.get? above k) (Table.get? m k) := by
  induction above generalizing base with
  | nil =>
    rw [mergeEntries] at h
    cases h
    exact joined_over_none.2 rfl
  | cons e es ih =>
    obtain ⟨u, hu, h⟩ := (mergeEntries_cons base e.1 e.2 es).1 h
    have hjoined := ih (List.pairwise_cons.1 ho).2 h
    rw [Table.get?_insert] at hjoined
    rw [Table.get?]
    by_cases hk : e.1 == k
    · rw [if_pos hk, Table.get?_tail_eq_none ho hk, joined_over_none] at hjoined
      rwa [if_pos hk, ← Table.get?_congr hk, ← hjoined]
    · rwa [if_neg hk] at hjoined ⊢

theorem exists_mergeEntries (ho : Table.Distinct above)
    (h : ∀ k, ∃ u, Joined (Table.get? base k) (Table.get? above k) u) :
    ∃ m, mergeEntries base above = .ok m := by
  induction above generalizing base with
  | nil => exact ⟨base, by rw [mergeEntries]⟩
  | cons e es ih =>
    obtain ⟨u, hu⟩ : ∃ u, Joined (Table.get? base e.1) (some e.2) (some u) := by
      obtain ⟨u, hu⟩ := h e.1
      rw [Table.get?, if_pos BEq.rfl] at hu
      obtain ⟨u, rfl⟩ := Option.isSome_iff_exists.1 (by simpa using hu.isSome)
      exact ⟨u, hu⟩
    obtain ⟨m, hm⟩ := ih (List.pairwise_cons.1 ho).2 fun k => by
      rw [Table.get?_insert]
      by_cases hk : e.1 == k
      · rw [if_pos hk, Table.get?_tail_eq_none ho hk]
        exact ⟨_, joined_over_none.2 rfl⟩
      · simpa only [Table.get?, if_neg hk] using h k
    exact ⟨m, (mergeEntries_cons base e.1 e.2 es).2 ⟨u, hu, hm⟩⟩

/-- A merge has the keys of both sides and joins what the two have under each key. -/
theorem mergeEntries_eq_ok (hb : Table.Distinct base) (ho : Table.Distinct above) :
    mergeEntries base above = .ok m ↔ Table.keys m = joinedKeys base above
      ∧ ∀ k, Joined (Table.get? base k) (Table.get? above k) (Table.get? m k) := by
  refine ⟨fun h => ⟨keys_mergeEntries ho h, joined_mergeEntries ho h⟩, fun ⟨hkeys, hjoined⟩ => ?_⟩
  obtain ⟨m', hm'⟩ := exists_mergeEntries ho fun k => ⟨_, hjoined k⟩
  rw [hm', Table.ext_of_keys (distinct_mergeEntries hb hm')
    ((keys_mergeEntries ho hm').trans hkeys.symm)
    fun k _ => (joined_mergeEntries ho hm' k).unique (hjoined k)]

end Entries

end Config

end BuildPipeline
