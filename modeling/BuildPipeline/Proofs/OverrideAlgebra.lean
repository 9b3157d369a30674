import BuildPipeline.Proofs.MergeConflicts

/-!
The algebra of overrides. Merging has the empty mapping as its unit and every mapping as an
idempotent, an override that was merged once changes nothing the second time, and it does not matter
which of three documents without nulls are merged first.
-/

namespace BuildPipeline

/-- No path of keys leads to null. -/
def Value.NullFree (v : Value) : Prop := ∀ p, v.at? p ≠ some .null

theorem Value.NullFree.ne_null {v : Value} (h : v.NullFree) : v ≠ .null := fun hv =>
  h [] (congrArg some hv)

theorem Value.NullFree.get? {es : Dict} {k : Scalar} {v : Value} (h : (Value.dict es).NullFree)
    (hv : Table.get? es k = some v) : v.NullFree := fun p hp => h (k :: p) (by simp [at?, hv, hp])

theorem Value.NullFree.dict {es : Dict} (h : ∀ e ∈ es, e.2.NullFree) : (Value.dict es).NullFree
  | [], hp => nomatch hp
  | k :: p, hp => by
    obtain ⟨v, hv, hp⟩ := Option.bind_eq_some_iff.1 hp
    obtain ⟨e, he, rfl⟩ := Table.mem_of_get? hv
    exact h e he p hp

theorem Value.NullFree.leaf {v : Value} (h : v.kind ≠ .dict) (hv : v ≠ .null) : v.NullFree
  | [], hp => hv (Option.some.inj hp)
  | _ :: _, hp => by
    obtain ⟨es, rfl, -⟩ := at?_cons.1 hp
    exact h rfl

theorem Value.Keyed.exists_dict {v : Value} (h : v.Keyed) (hv : v.kind = .dict) :
    ∃ es, v = .dict es := by
  cases h with
  | dict es => exact ⟨es, rfl⟩
  | leaf v h => exact absurd hv h

namespace Config

variable {a b c ab bc m : Dict} {u v w x y : Value}

section Repetition

theorem joinedKeys_nil (a : Dict) : joinedKeys [] a = a.keys := by
  simp [joinedKeys, Table.contains, Table.keys]

/-- No key is new that the base has. -/
theorem joinedKeys_of_contains (h : ∀ k ∈ b.keys, Table.contains a k) :
    joinedKeys a b = a.keys := by
  have hnew : b.keys.filter (fun k => !Table.contains a k) = [] :=
    List.filter_eq_nil_iff.2 fun k hk => by simp [h k hk]
  rw [joinedKeys, hnew, List.append_nil]

theorem merged_self (h : v.Keyed) : Merged v v v := by
  induction h with
  | leaf v h =>
    by_cases hv : v = .null
    · subst hv
      exact merged_null.2 rfl
    · exact (merged_leaf hv hv fun b o hb _ => h (hb ▸ rfl)).2 ⟨Kind.agrees_refl _, rfl⟩
  | dict es hd h ih =>
    refine merged_dict.2 ⟨es, (mergeEntries_eq_ok hd hd).2
      ⟨(joinedKeys_of_contains fun k => Table.contains_of_mem_keys).symm, fun k => ?_⟩, rfl⟩
    cases hk : Table.get? es k with
    | none => exact joined_none.2 rfl
    | some v =>
      obtain ⟨e, he, rfl⟩ := Table.mem_of_get? hk
      exact ⟨_, ih e he, rfl⟩

/-- An override that was merged once changes nothing the second time. -/
theorem merged_again (hv : v.Keyed) (hw : w.Keyed) (h : Merged v w u) : Merged u w u := by
  induction hw generalizing v u with
  | leaf w hw =>
    rw [merged_replaced (fun b o _ hdict => hw (congrArg Value.kind hdict)) h]
    exact merged_self (.leaf w hw)
  | dict above hd hentries ih =>
    have hover : (Value.dict above).Keyed := .dict above hd hentries
    by_cases hdict : ∃ base, v = .dict base
    · obtain ⟨base, rfl⟩ := hdict
      obtain ⟨m, hm, rfl⟩ := merged_dict.1 h
      have hjoined := joined_mergeEntries hd hm
      refine merged_dict.2 ⟨m, (mergeEntries_eq_ok (distinct_mergeEntries hv.of_dict.1 hm) hd).2
        ⟨(joinedKeys_of_contains fun k hk => ?_).symm, fun k => ?_⟩, rfl⟩
      · have hsome : (Table.get? above k).isSome := Table.contains_of_mem_keys hk
        rw [Table.contains, (hjoined k).isSome, hsome, Bool.or_true]
      · have hk := hjoined k
        cases hw : Table.get? above k with
        | none => exact joined_over_none.2 rfl
        | some w =>
          rw [hw] at hk
          cases hv' : Table.get? base k with
          | none =>
            rw [hv', joined_none] at hk
            rw [← hk]
            exact ⟨w, merged_self (hover.get? hw), rfl⟩
          | some v =>
            rw [hv'] at hk
            obtain ⟨u, hu, hk⟩ := hk
            obtain ⟨e, he, rfl⟩ := Table.mem_of_get? hw
            rw [← hk]
            exact ⟨u, ih e he (hv.get? hv') hu, rfl⟩
    · rw [merged_replaced (fun b o hb => absurd ⟨b, hb⟩ hdict) h]
      exact merged_self hover

end Repetition

section Association

/-- Values that are merged agree in their kinds, and the result is of the kind of the override. -/
theorem kind_of_merged (hv : v ≠ .null) (hw : w ≠ .null) (h : Merged v w u) :
    v.kind.agrees w.kind ∧ u.kind = w.kind ∧ u ≠ .null := by
  by_cases hdict : ∀ b o, v = .dict b → w ≠ .dict o
  · obtain ⟨hagrees, rfl⟩ := (merged_leaf hv hw hdict).1 h
    exact ⟨hagrees, rfl, hw⟩
  · push Not at hdict
    obtain ⟨b, o, rfl, rfl⟩ := hdict
    obtain ⟨m, -, rfl⟩ := merged_dict.1 h
    exact ⟨Kind.agrees_refl _, rfl, nofun⟩

theorem kinds_of_left (hv : v ≠ .null) (hw : w ≠ .null) (hx : x ≠ .null) (hvw : Merged v w y)
    (h : Merged y x u) : v.kind.agrees w.kind ∧ w.kind.agrees x.kind := by
  obtain ⟨hagrees, hkind, hy⟩ := kind_of_merged hv hw hvw
  exact ⟨hagrees, hkind ▸ (kind_of_merged hy hx h).1⟩

theorem kinds_of_right (hv : v ≠ .null) (hw : w ≠ .null) (hx : x ≠ .null) (hwx : Merged w x y)
    (h : Merged v y u) : v.kind.agrees w.kind ∧ w.kind.agrees x.kind := by
  obtain ⟨hagrees, hkind, hy⟩ := kind_of_merged hw hx hwx
  exact ⟨(Kind.agrees_congr hagrees).2 (hkind ▸ (kind_of_merged hv hy h).1), hagrees⟩

/-- One of three values is no mapping: what is merged first does not matter, as the last one of
values that agree stays. -/
theorem merged_assoc_leaf (hv : v ≠ .null) (hw : w ≠ .null) (hx : x ≠ .null)
    (hdict : ∀ b, v ≠ .dict b) :
    (∃ y, Merged v w y ∧ Merged y x u) ↔ ∃ y, Merged w x y ∧ Merged v y u := by
  constructor
  · rintro ⟨y, hvw, h⟩
    obtain ⟨hagrees, hagrees'⟩ := kinds_of_left hv hw hx hvw h
    obtain rfl := merged_replaced (fun b _ hb => absurd hb (hdict b)) hvw
    obtain ⟨-, hkind, hu⟩ := kind_of_merged hw hx h
    refine ⟨u, h, (merged_leaf hv hu fun b _ hb => absurd hb (hdict b)).2 ⟨?_, rfl⟩⟩
    rw [hkind]
    exact (Kind.agrees_congr hagrees').1 hagrees
  · rintro ⟨y, hwx, h⟩
    obtain ⟨hagrees, -⟩ := kinds_of_right hv hw hx hwx h
    obtain rfl := merged_replaced (fun b _ hb => absurd hb (hdict b)) h
    exact ⟨w, (merged_leaf hv hw fun b _ hb => absurd hb (hdict b)).2 ⟨hagrees, rfl⟩, hwx⟩

/-- Values under a key can be joined in either order, if all three sides have one and these can be
merged in either order. -/
theorem joined_assoc {a b c d : Option Value}
    (h : ∀ v w x, a = some v → b = some w → c = some x → ∀ u,
      (∃ y, Merged v w y ∧ Merged y x u) ↔ ∃ y, Merged w x y ∧ Merged v y u) :
    (∃ o, Joined a b o ∧ Joined o c d) ↔ ∃ o, Joined b c o ∧ Joined a o d := by
  match a, b, c with
  | none, b, c => simp [joined_none]
  | some v, none, c => simp [joined_none, joined_over_none]
  | some v, some w, none => simp [joined_over_none]
  | some v, some w, some x =>
    have hassoc := h v w x rfl rfl rfl
    constructor
    · rintro ⟨_, ⟨y, hvw, rfl⟩, u, hyx, rfl⟩
      obtain ⟨y', hwx, hvy⟩ := (hassoc u).1 ⟨y, hvw, hyx⟩
      exact ⟨_, ⟨y', hwx, rfl⟩, u, hvy, rfl⟩
    · rintro ⟨_, ⟨y, hwx, rfl⟩, u, hvy, rfl⟩
      obtain ⟨y', hvw, hyx⟩ := (hassoc u).2 ⟨y, hwx, hvy⟩
      exact ⟨_, ⟨y', hvw, rfl⟩, u, hyx, rfl⟩

theorem joinedKeys_assoc (hab : mergeEntries a b = .ok ab) (hb : Table.Distinct b)
    (hbc : mergeEntries b c = .ok bc) (hc : Table.Distinct c) :
    joinedKeys ab c = joinedKeys a bc := by
  have hcontains (k) : Table.contains ab k = (Table.contains a k || Table.contains b k) :=
    (joined_mergeEntries hb hab k).isSome
  rw [joinedKeys, keys_mergeEntries hb hab, joinedKeys, joinedKeys, keys_mergeEntries hc hbc,
    joinedKeys, List.filter_append, List.filter_filter, List.append_assoc]
  simp only [hcontains, Bool.not_or]

/-- Mappings can be merged in either order if the values under their common keys can. -/
theorem mergeEntries_assoc (ha : Table.Distinct a) (hb : Table.Distinct b) (hc : Table.Distinct c)
    (h : ∀ k v w x, Table.get? a k = some v → Table.get? b k = some w → Table.get? c k = some x →
      ∀ u, (∃ y, Merged v w y ∧ Merged y x u) ↔ ∃ y, Merged w x y ∧ Merged v y u) :
    (∃ ab, mergeEntries a b = .ok ab ∧ mergeEntries ab c = .ok m)
      ↔ ∃ bc, mergeEntries b c = .ok bc ∧ mergeEntries a bc = .ok m := by
  have hjoined (k) := joined_assoc (d := Table.get? m k) (h k)
  constructor
  · rintro ⟨ab, hab, hm⟩
    have hleft (k) := (hjoined k).1
      ⟨_, joined_mergeEntries hb hab k, joined_mergeEntries hc hm k⟩
    obtain ⟨bc, hbc⟩ := exists_mergeEntries hc fun k => (hleft k).imp fun _ => And.left
    refine ⟨bc, hbc, (mergeEntries_eq_ok ha (distinct_mergeEntries hb hbc)).2 ⟨?_, fun k => ?_⟩⟩
    · rw [keys_mergeEntries hc hm, joinedKeys_assoc hab hb hbc hc]
    · obtain ⟨o, ho, hk⟩ := hleft k
      exact (joined_mergeEntries hc hbc k).unique ho ▸ hk
  · rintro ⟨bc, hbc, hm⟩
    have hdistinct := distinct_mergeEntries hb hbc
    have hright (k) := (hjoined k).2
      ⟨_, joined_mergeEntries hc hbc k, joined_mergeEntries hdistinct hm k⟩
    obtain ⟨ab, hab⟩ := exists_mergeEntries hb fun k => (hright k).imp fun _ => And.left
    refine ⟨ab, hab, (mergeEntries_eq_ok (distinct_mergeEntries ha hab) hc).2 ⟨?_, fun k => ?_⟩⟩
    · rw [keys_mergeEntries hdistinct hm, joinedKeys_assoc hab hb hbc hc]
    · obtain ⟨o, ho, hk⟩ := hright k
      exact (joined_mergeEntries hb hab k).unique ho ▸ hk

/-- Three documents without nulls can be merged in either order. -/
theorem merged_assoc (hv : v.Keyed) (hw : w.Keyed) (hx : x.Keyed) (hvn : v.NullFree)
    (hwn : w.NullFree) (hxn : x.NullFree) :
    (∃ y, Merged v w y ∧ Merged y x u) ↔ ∃ y, Merged w x y ∧ Merged v y u := by
  induction hv generalizing w x u with
  | leaf v hv =>
    exact merged_assoc_leaf hvn.ne_null hwn.ne_null hxn.ne_null fun b hb =>
      hv (congrArg Value.kind hb)
  | dict a ha hentries ih =>
    by_cases hkinds : w.kind = .dict ∧ x.kind = .dict
    · obtain ⟨b, rfl⟩ := hw.exists_dict hkinds.1
      obtain ⟨c, rfl⟩ := hx.exists_dict hkinds.2
      have hassoc (m) := mergeEntries_assoc (m := m) ha hw.of_dict.1 hx.of_dict.1
        fun k v w x hv' hw' hx' u => by
          obtain ⟨e, he, rfl⟩ := Table.mem_of_get? hv'
          exact ih e he (hw.get? hw') (hx.get? hx') (hvn.get? hv') (hwn.get? hw') (hxn.get? hx')
      constructor
      · rintro ⟨y, hy, h⟩
        obtain ⟨ab, hab, rfl⟩ := merged_dict.1 hy
        obtain ⟨m, hm, rfl⟩ := merged_dict.1 h
        obtain ⟨bc, hbc, hm⟩ := (hassoc m).1 ⟨ab, hab, hm⟩
        exact ⟨_, merged_dict.2 ⟨bc, hbc, rfl⟩, merged_dict.2 ⟨m, hm, rfl⟩⟩
      · rintro ⟨y, hy, h⟩
        obtain ⟨bc, hbc, rfl⟩ := merged_dict.1 hy
        obtain ⟨m, hm, rfl⟩ := merged_dict.1 h
        obtain ⟨ab, hab, hm⟩ := (hassoc m).2 ⟨bc, hbc, hm⟩
        exact ⟨_, merged_dict.2 ⟨ab, hab, rfl⟩, merged_dict.2 ⟨m, hm, rfl⟩⟩
    · have hdict (h : Kind.agrees .dict w.kind ∧ w.kind.agrees x.kind) :
          w.kind = .dict ∧ x.kind = .dict := by
        have hw := Kind.agrees_dict.1 h.1
        exact ⟨hw.symm, (Kind.agrees_dict.1 (hw ▸ h.2)).symm⟩
      refine iff_of_false ?_ ?_
      · rintro ⟨y, hvw, h⟩
        exact hkinds (hdict (kinds_of_left hvn.ne_null hwn.ne_null hxn.ne_null hvw h))
      · rintro ⟨y, hwx, h⟩
        exact hkinds (hdict (kinds_of_right hvn.ne_null hwn.ne_null hxn.ne_null hwx h))

end Association

theorem merge_eq_ok : merge (.dict a) (.dict b) = .ok m ↔ Merged (.dict a) (.dict b) (.dict m) := by
  rw [merge, merged_dict]
  simp

/-- The empty mapping on either side changes nothing, and neither does a mapping over itself; what
an override gave is not changed by the same override again; and of three documents without nulls
either two may be merged first: both ways fail, or both give the same mapping with its keys in the
same order. -/
theorem merge_algebra (ha : (Value.dict a).Keyed) (hb : (Value.dict b).Keyed)
    (hc : (Value.dict c).Keyed) :
    merge (.dict a) (.dict []) = .ok a ∧ merge (.dict []) (.dict a) = .ok a
    ∧ merge (.dict a) (.dict a) = .ok a
    ∧ (∀ m, merge (.dict a) (.dict b) = .ok m → merge (.dict m) (.dict b) = .ok m)
    ∧ ((Value.dict a).NullFree → (Value.dict b).NullFree → (Value.dict c).NullFree →
      let left := merge (.dict a) (.dict b) >>= fun ab => merge (.dict ab) (.dict c)
      let right := merge (.dict b) (.dict c) >>= fun bc => merge (.dict a) (.dict bc)
      (∃ m, left = .ok m ∧ right = .ok m) ∨ (∃ e, left = .error e) ∧ ∃ e, right = .error e) := by
  refine ⟨by rw [merge, mergeEntries], ?_, merge_eq_ok.2 (merged_self ha), fun m h =>
    merge_eq_ok.2 (merged_again ha hb (merge_eq_ok.1 h)), ?_⟩
  · exact (mergeEntries_eq_ok .nil ha.of_dict.1).2
      ⟨(joinedKeys_nil a).symm, fun k => joined_none.2 rfl⟩
  · intro han hbn hcn left right
    have hassoc (m) : left = .ok m ↔ right = .ok m := by
      rw [bind_eq_ok, bind_eq_ok]
      exact mergeEntries_assoc ha.of_dict.1 hb.of_dict.1 hc.of_dict.1 fun k v w x hv hw hx u =>
        merged_assoc (ha.get? hv) (hb.get? hw) (hc.get? hx) (han.get? hv) (hbn.get? hw)
          (hcn.get? hx)
    cases hleft : left with
    | ok m => exact .inl ⟨m, rfl, (hassoc m).1 hleft⟩
    | error e =>
      cases hright : right with
      | ok m => cases hleft.symm.trans ((hassoc m).2 hright)
      | error e' => exact .inr ⟨⟨e, rfl⟩, e', rfl⟩

def stock : Dict := [(.str "retry", .ofTable [("attempts", .int 3)]), (.int 1, .str "a")]

/-- An override of `stock` whose first key is one with the number 1. -/
def team : Dict := [(.bool true, .str "b"), (.str "retry", .ofTable [("hosts", .list [.null])])]

def mine : Dict := [(.str "mode", .bool false), (.str "retry", .ofTable [("attempts", .int 5)])]

theorem merge_algebra_stock :
    (Value.dict stock).Keyed ∧ (Value.dict team).Keyed ∧ (Value.dict mine).Keyed
    ∧ (Value.dict stock).NullFree ∧ (Value.dict team).NullFree ∧ (Value.dict mine).NullFree
    ∧ merge (.dict stock) (.dict stock) = .ok stock
    ∧ (∃ m, merge (.dict stock) (.dict team) = .ok m ∧ merge (.dict m) (.dict team) = .ok m)
    ∧ ∃ m, m.keys = [.str "retry", .int 1, .str "mode"]
      ∧ (merge (.dict stock) (.dict team) >>= fun ab => merge (.dict ab) (.dict mine)) = .ok m
      ∧ (merge (.dict team) (.dict mine) >>= fun bc => merge (.dict stock) (.dict bc)) = .ok m := by
  have hleaf (v : Value) (h : v.kind ≠ .dict ∧ v ≠ .null) : v.Keyed ∧ v.NullFree :=
    ⟨.leaf v h.1, .leaf h.1 h.2⟩
  have hflat (k : Scalar) (v : Value) (h : v.kind ≠ .dict ∧ v ≠ .null) :
      (Value.dict [(k, v)]).Keyed ∧ (Value.dict [(k, v)]).NullFree :=
    ⟨.dict _ (List.pairwise_singleton _ _) (List.forall_mem_singleton.2 (hleaf v h).1),
      .dict (List.forall_mem_singleton.2 (hleaf v h).2)⟩
  have hpair (k k' : Scalar) (v w : Value) (hk : (k == k') = false) (hv : v.Keyed ∧ v.NullFree)
      (hw : w.Keyed ∧ w.NullFree) : (Value.dict [(k, v), (k', w)]).Keyed
        ∧ (Value.dict [(k, v), (k', w)]).NullFree :=
    ⟨.dict _ (by simpa [Table.Distinct] using hk) (by simpa using ⟨hv.1, hw.1⟩),
      .dict (by simpa using ⟨hv.2, hw.2⟩)⟩
  obtain ⟨hstock, hstockNulls⟩ := hpair (.str "retry") (.int 1) _ _ (by decide)
    (hflat (.str "attempts") (.int 3) (by decide)) (hleaf (.str "a") (by decide))
  obtain ⟨hteam, hteamNulls⟩ := hpair (.bool true) (.str "retry") _ _ (by decide)
    (hleaf (.str "b") (by decide)) (hflat (.str "hosts") (.list [.null]) (by decide))
  obtain ⟨hmine, hmineNulls⟩ := hpair (.str "mode") (.str "retry") _ _ (by decide)
    (hleaf (.bool false) (by decide)) (hflat (.str "attempts") (.int 5) (by decide))
  obtain ⟨-, -, hself, hagain, hassoc⟩ := merge_algebra hstock hteam hmine
  have hleft : (merge (.dict stock) (.dict team) >>= fun ab => merge (.dict ab) (.dict mine))
      = .ok [(.str "retry", .ofTable [("attempts", .int 5), ("hosts", .list [.null])]),
        (.int 1, .str "b"), (.str "mode", .bool false)] := by decide +kernel
  have hmerged : merge (.dict stock) (.dict team)
      = .ok [(.str "retry", .ofTable [("attempts", .int 3), ("hosts", .list [.null])]),
        (.int 1, .str "b")] := by decide +kernel
  refine ⟨hstock, hteam, hmine, hstockNulls, hteamNulls, hmineNulls, hself,
    ⟨_, hmerged, hagain _ hmerged⟩, _, ?_, hleft, ?_⟩
  · rfl
  · rcases hassoc hstockNulls hteamNulls hmineNulls with ⟨m, hm, hm'⟩ | ⟨⟨e, he⟩, -⟩
    · exact hm'.trans (hm.symm.trans hleft)
    · cases hleft.symm.trans he

end Config

end BuildPipeline
