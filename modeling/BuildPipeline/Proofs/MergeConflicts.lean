import BuildPipeline.Proofs.MergeLaws

/-!
When a merge fails, and what it gives otherwise, at every path of keys that leads through mappings
of both sides.
-/

namespace BuildPipeline

namespace Value

/-- What a path of keys leads to. -/
def at? : Value → List Scalar → Option Value
  | v, [] => some v
  | .dict es, k :: p => (Table.get? es k).bind fun v => v.at? p
  | _, _ :: _ => none

/-- Two values, neither of them null, of different types that are not both types of numbers. -/
structure Clash (v w : Value) : Prop where
  base : v ≠ .null
  above : w ≠ .null
  kinds : v.kind ≠ w.kind
  numbers : ¬(v.kind.isNumber ∧ w.kind.isNumber)

/-- Along some path of keys both documents have a value, and the two clash. -/
def Conflicting (a b : Value) : Prop := ∃ p v w, a.at? p = some v ∧ b.at? p = some w ∧ v.Clash w

variable {base above : Dict} {p : List Scalar} {k : Scalar} {v w u : Value}

theorem clash_iff (hv : v ≠ .null) (hw : w ≠ .null) : v.Clash w ↔ ¬v.kind.agrees w.kind := by
  rw [Kind.agrees_iff, not_or]
  exact ⟨fun h => ⟨h.kinds, h.numbers⟩, fun ⟨hkinds, hnumbers⟩ => ⟨hv, hw, hkinds, hnumbers⟩⟩

theorem at?_cons : v.at? (k :: p) = some u
    ↔ ∃ es, v = .dict es ∧ (Table.get? es k).bind (fun v => v.at? p) = some u := by
  cases v <;> simp [at?]

theorem exists_dict_of_at? {b : Dict} (h : v.at? p = some (.dict b)) : ∃ es, v = .dict es := by
  cases p with
  | nil => exact ⟨b, Option.some.inj h⟩
  | cons k p =>
    obtain ⟨es, hv, -⟩ := at?_cons.1 h
    exact ⟨es, hv⟩

/-- Values that are not both mappings conflict at once or not at all. -/
theorem conflicting_leaf (hdict : ∀ b o, v = .dict b → w ≠ .dict o) :
    v.Conflicting w ↔ v.Clash w := by
  refine ⟨fun ⟨p, v', w', hv, hw, h⟩ => ?_, fun h => ⟨[], v, w, rfl, rfl, h⟩⟩
  cases p with
  | nil =>
    cases hv
    cases hw
    exact h
  | cons k p =>
    obtain ⟨b, rfl, -⟩ := at?_cons.1 hv
    obtain ⟨o, rfl, -⟩ := at?_cons.1 hw
    exact absurd rfl (hdict b o rfl)

/-- Mappings conflict under one of the keys that both have. -/
theorem conflicting_dict : (Value.dict base).Conflicting (.dict above)
    ↔ ∃ k v w, Table.get? base k = some v ∧ Table.get? above k = some w ∧ v.Conflicting w := by
  constructor
  · rintro ⟨p, v', w', hv, hw, h⟩
    cases p with
    | nil =>
      cases hv
      cases hw
      exact absurd rfl h.kinds
    | cons k p =>
      obtain ⟨v, hk, hv⟩ := Option.bind_eq_some_iff.1 hv
      obtain ⟨w, hk', hw⟩ := Option.bind_eq_some_iff.1 hw
      exact ⟨k, v, w, hk, hk', p, v', w', hv, hw, h⟩
  · rintro ⟨k, v, w, hk, hk', p, v', w', hv, hw, h⟩
    exact ⟨k :: p, v', w', by simp [at?, hk, hv], by simp [at?, hk', hw], h⟩

end Value

namespace Config

variable {base above m : Dict} {k : Scalar} {v w u : Value}

section Conflicts

/-- Mappings can be merged if the values under each common key can. -/
theorem exists_mergeEntries_iff (ho : Table.Distinct above) : (∃ m, mergeEntries base above = .ok m)
    ↔ ∀ k v w, Table.get? base k = some v → Table.get? above k = some w → ∃ u, Merged v w u := by
  refine ⟨fun ⟨m, hm⟩ k v w hv hw => ?_, fun h => exists_mergeEntries ho fun k => ?_⟩
  · have hjoined := joined_mergeEntries ho hm k
    rw [hv, hw] at hjoined
    obtain ⟨u, hu, -⟩ := hjoined
    exact ⟨u, hu⟩
  · cases hv : Table.get? base k with
    | none => exact ⟨_, joined_none.2 rfl⟩
    | some v =>
      cases hw : Table.get? above k with
      | none => exact ⟨_, joined_over_none.2 rfl⟩
      | some w =>
        obtain ⟨u, hu⟩ := h k v w hv hw
        exact ⟨some u, u, hu, rfl⟩

theorem exists_merged_leaf (hdict : ∀ b o, v = .dict b → w ≠ .dict o) :
    (∃ u, Merged v w u) ↔ ¬v.Conflicting w := by
  rw [Value.conflicting_leaf hdict]
  by_cases hv : v = .null
  · subst hv
    exact iff_of_true ⟨w, merged_null.2 rfl⟩ fun h => h.base rfl
  by_cases hw : w = .null
  · subst hw
    exact iff_of_true ⟨.null, merged_over_null.2 rfl⟩ fun h => h.above rfl
  rw [Value.clash_iff hv hw, not_not]
  simp only [merged_leaf hv hw hdict, exists_and_left, exists_eq', and_true]

theorem exists_merged_dict : (∃ u, Merged (.dict base) (.dict above) u)
    ↔ ∃ m, mergeEntries base above = .ok m := by
  simp only [merged_dict]
  exact ⟨fun ⟨_, m, hm, _⟩ => ⟨m, hm⟩, fun ⟨m, hm⟩ => ⟨_, m, hm, rfl⟩⟩

/-- A document can be merged over another unless the two conflict. -/
theorem exists_merged_iff_of_singleKeyed (hw : w.SingleKeyed) :
    (∃ u, Merged v w u) ↔ ¬v.Conflicting w := by
  induction hw generalizing v with
  | leaf w hw => exact exists_merged_leaf fun b o _ h => hw o h
  | dict above hd h ih =>
    by_cases hv : ∃ base, v = .dict base
    · obtain ⟨base, rfl⟩ := hv
      rw [exists_merged_dict, exists_mergeEntries_iff hd, Value.conflicting_dict]
      push Not
      refine forall₃_congr fun k v w => forall₂_congr fun hk hk' => ?_
      obtain ⟨e, he, rfl⟩ := Table.mem_of_get? hk'
      exact ih e he
    · exact exists_merged_leaf fun b o hb => absurd ⟨b, hb⟩ hv

theorem exists_merged_iff (hw : w.Keyed) : (∃ u, Merged v w u) ↔ ¬v.Conflicting w :=
  exists_merged_iff_of_singleKeyed hw.singleKeyed

end Conflicts

section Overlays

/-- `m` is `above` laid over `base`. The keys of the base come first, in its order, and behind them
the new ones in the order of the override. A key that one side has keeps its value. Of two values
the one of the override stays, unless both are mappings, which are merged. -/
structure Overlaid (base above m : Dict) : Prop where
  keys : m.keys = base.keys ++ above.keys.filter fun k => !Table.contains base k
  kept : ∀ k, Table.get? above k = none → Table.get? m k = Table.get? base k
  added : ∀ k, Table.get? base k = none → Table.get? m k = Table.get? above k
  replaced : ∀ k v w, Table.get? base k = some v → Table.get? above k = some w →
    (∀ b o, v = .dict b → w ≠ .dict o) → Table.get? m k = some w
  merged : ∀ k b o, Table.get? base k = some (.dict b) → Table.get? above k = some (.dict o) →
    ∃ u, merge (.dict b) (.dict o) = .ok u ∧ Table.get? m k = some (.dict u)

theorem merged_replaced (hdict : ∀ b o, v = .dict b → w ≠ .dict o) (h : Merged v w u) : u = w := by
  by_cases hv : v = .null
  · subst hv
    exact (merged_null.1 h).symm
  by_cases hw : w = .null
  · subst hw
    exact (merged_over_null.1 h).symm
  exact ((merged_leaf hv hw hdict).1 h).2.symm

theorem overlaid_of_merge (ho : Table.Distinct above)
    (h : merge (.dict base) (.dict above) = .ok m) : Overlaid base above m := by
  have hjoined := joined_mergeEntries ho h
  refine ⟨keys_mergeEntries ho h, fun k hk => ?_, fun k hk => ?_, fun k v w hv hw hdict => ?_,
    fun k b o hb ho => ?_⟩
  · exact (joined_over_none.1 (hk ▸ hjoined k)).symm
  · exact (joined_none.1 (hk ▸ hjoined k)).symm
  · have hk := hjoined k
    rw [hv, hw] at hk
    obtain ⟨u, hu, hm⟩ := hk
    rw [← hm, merged_replaced hdict hu]
  · have hk := hjoined k
    rw [hb, ho] at hk
    obtain ⟨u, hu, hm⟩ := hk
    obtain ⟨m, hmerge, rfl⟩ := merged_dict.1 hu
    exact ⟨m, hmerge, hm.symm⟩

/-- Along a path through mappings of both sides, a merge has the merge of what is there. -/
theorem at?_of_merge (ho : (Value.dict above).Keyed) (h : merge (.dict base) (.dict above) = .ok m)
    {p : List Scalar} {b o : Dict} (hb : (Value.dict base).at? p = some (.dict b))
    (hover : (Value.dict above).at? p = some (.dict o)) :
    ∃ u, merge (.dict b) (.dict o) = .ok u ∧ (Value.dict m).at? p = some (.dict u)
      ∧ Overlaid b o u := by
  induction p generalizing base above m with
  | nil =>
    cases hb
    cases hover
    exact ⟨m, h, rfl, overlaid_of_merge ho.of_dict.1 h⟩
  | cons k p ih =>
    obtain ⟨v, hv, hb⟩ := Option.bind_eq_some_iff.1 hb
    obtain ⟨w, hw, hover⟩ := Option.bind_eq_some_iff.1 hover
    obtain ⟨vs, rfl⟩ := Value.exists_dict_of_at? hb
    obtain ⟨ws, rfl⟩ := Value.exists_dict_of_at? hover
    obtain ⟨u, hu, hm⟩ := (overlaid_of_merge ho.of_dict.1 h).merged k vs ws hv hw
    obtain ⟨r, hr, hat, hoverlaid⟩ := ih (ho.get? hw) hu hb hover
    exact ⟨r, hr, by simp [Value.at?, hm, hat], hoverlaid⟩

end Overlays

def defaults : Dict := [(.str "retry", .ofTable [("attempts", .int 3), ("delay", .null)]),
  (.str "paths", .list [.str "src"]), (.int 1, .str "one")]

/-- An override with a new key, a value in place of null, a shorter list, and a key that is one with
the number 1. -/
def tuned : Dict := [(.bool true, .str "yes"),
  (.str "retry", .ofTable [("jitter", .int 9), ("delay", .int 2)]), (.str "paths", .list [])]

/-- An override with a text in place of a number. -/
def broken : Dict := [(.str "retry", .ofTable [("attempts", .str "three")])]

end Config

end BuildPipeline
