import BuildPipeline.Json.KeyOrder
import BuildPipeline.Proofs.DocumentLaws

/-!
When keys can be sorted. A comparison that has no answer stops the sorting, and every element is
compared with another one, so that several keys are sorted only if all of them are of one sort.
-/

namespace BuildPipeline.Json

section Sorting

variable {ε α β : Type} {less : α → α → Except ε Bool} {f : α → β} {a b : α}
  {as bs run rest sorted r : List α} {keep : Bool} {fuel low high i : Nat}

theorem runFrom_append (h : runFrom less keep a bs = .ok (run, rest)) : run ++ rest = bs := by
  induction bs generalizing a run with
  | nil =>
    cases h
    rfl
  | cons b bs ih =>
    obtain ⟨less', -, h⟩ := bind_eq_ok.1 h
    split at h
    · obtain ⟨p, hp, h⟩ := bind_eq_ok.1 h
      cases h
      exact congrArg (b :: ·) (ih hp)
    · cases h
      rfl

theorem perm_insertAll (h : insertAll less sorted as = .ok r) : r.Perm (sorted ++ as) := by
  induction as generalizing sorted with
  | nil =>
    cases h
    rw [List.append_nil]
  | cons a as ih =>
    obtain ⟨i, -, h⟩ := bind_eq_ok.1 h
    have hinsert : (sorted.take i ++ a :: sorted.drop i).Perm (sorted ++ [a]) := by
      conv_rhs => rw [← List.take_append_drop i sorted, List.append_assoc]
      exact (List.perm_append_singleton a _).symm.append_left _
    simpa using (ih h).trans (hinsert.append_right as)

/-- Sorting changes the order and nothing else. -/
theorem perm_sortBy (h : sortBy less as = .ok r) : r.Perm as := by
  match as with
  | [] =>
    cases h
    exact .refl _
  | [a] =>
    cases h
    exact .refl _
  | a :: b :: cs =>
    obtain ⟨descends, -, h⟩ := bind_eq_ok.1 h
    obtain ⟨⟨run, rest⟩, hrun, h⟩ := bind_eq_ok.1 h
    have hfront : (if descends then (a :: b :: run).reverse else a :: b :: run).Perm
        (a :: b :: run) := by
      split
      · exact List.reverse_perm _
      · exact .refl _
    rw [← runFrom_append hrun]
    exact (perm_insertAll h).trans (hfront.append_right rest)

section Comparable

variable (hless : ∀ a b r, less a b = .ok r → f a = f b)

include hless

theorem eq_of_mem_run (h : runFrom less keep a bs = .ok (run, rest)) : ∀ b ∈ run, f b = f a := by
  induction bs generalizing a run with
  | nil =>
    cases h
    exact nofun
  | cons b bs ih =>
    obtain ⟨less', hb, h⟩ := bind_eq_ok.1 h
    split at h
    · obtain ⟨p, hp, h⟩ := bind_eq_ok.1 h
      cases h
      have hab := hless _ _ _ hb
      exact List.forall_mem_cons.2 ⟨hab, fun c hc => (ih hp c hc).trans hab⟩
    · cases h
      exact nofun

/-- The place of an element is not found without comparing it. -/
theorem eq_of_placeIn {x : β} (hsorted : ∀ b ∈ sorted, f b = x) (hlow : low < high)
    (hhigh : high ≤ sorted.length) (h : placeIn less sorted a (fuel + 1) low high = .ok i) :
    f a = x := by
  have hmiddle : low + (high - low) / 2 < sorted.length := by omega
  rw [placeIn, if_pos hlow] at h
  dsimp only at h
  rw [List.getElem?_eq_getElem hmiddle] at h
  obtain ⟨less', ha, -⟩ := bind_eq_ok.1 h
  exact (hless _ _ _ ha).trans (hsorted _ (List.getElem_mem hmiddle))

theorem eq_of_insertAll {x : β} (hne : sorted ≠ []) (hsorted : ∀ b ∈ sorted, f b = x)
    (h : insertAll less sorted as = .ok r) : ∀ a ∈ as, f a = x := by
  induction as generalizing sorted with
  | nil => exact nofun
  | cons a as ih =>
    obtain ⟨i, hi, h⟩ := bind_eq_ok.1 h
    obtain ⟨n, hn⟩ := Nat.exists_eq_succ_of_ne_zero (mt List.length_eq_zero_iff.1 hne)
    have ha : f a = x := by
      rw [hn] at hi
      exact eq_of_placeIn hless hsorted (Nat.succ_pos n) (Nat.le_of_eq hn.symm) hi
    have hinserted : ∀ b ∈ sorted.take i ++ a :: sorted.drop i, f b = x := by
      rw [List.forall_mem_append, List.forall_mem_cons]
      exact ⟨fun b hb => hsorted b (List.mem_of_mem_take hb), ha,
        fun b hb => hsorted b (List.mem_of_mem_drop hb)⟩
    exact List.forall_mem_cons.2 ⟨ha, ih (by simp) hinserted h⟩

/-- If elements can be compared only within one class, all that are sorted together are of one. -/
theorem eq_of_sortBy (h : sortBy less (a :: b :: bs) = .ok r) :
    (∃ less', less b a = .ok less') ∧ ∀ c ∈ a :: b :: bs, f c = f a := by
  obtain ⟨descends, hba, h⟩ := bind_eq_ok.1 h
  obtain ⟨⟨run, rest⟩, hrun, h⟩ := bind_eq_ok.1 h
  have hb : f b = f a := hless _ _ _ hba
  have hfront : ∀ c ∈ a :: b :: run, f c = f a :=
    List.forall_mem_cons.2 ⟨rfl, List.forall_mem_cons.2 ⟨hb, fun c hc =>
      (eq_of_mem_run hless hrun c hc).trans hb⟩⟩
  have hrest : ∀ c ∈ rest, f c = f a := by
    refine eq_of_insertAll hless ?_ ?_ h
    · split <;> simp
    · split
      · exact fun c hc => hfront c (List.mem_reverse.1 hc)
      · exact hfront
  refine ⟨⟨descends, hba⟩, ?_⟩
  rw [← runFrom_append hrun, ← List.cons_append, ← List.cons_append, List.forall_mem_append]
  exact ⟨hfront, hrest⟩

end Comparable

section Total

theorem exists_runFrom (keep : Bool)
    (h : ∀ b ∈ a :: bs, ∀ c ∈ a :: bs, ∃ r, less b c = .ok r) :
    ∃ p, runFrom less keep a bs = .ok p := by
  induction bs generalizing a with
  | nil => exact ⟨_, rfl⟩
  | cons b bs ih =>
    obtain ⟨less', hb⟩ := h b (by simp) a (by simp)
    obtain ⟨p, hp⟩ := ih fun c hc d hd => h c (List.mem_cons_of_mem a hc) d
      (List.mem_cons_of_mem a hd)
    rw [runFrom, hb, ok_bind]
    split
    · exact ⟨_, by rw [hp]; rfl⟩
    · exact ⟨_, rfl⟩

theorem exists_placeIn (h : ∀ b ∈ sorted, ∃ r, less a b = .ok r) (fuel low high : Nat) :
    ∃ i, placeIn less sorted a fuel low high = .ok i := by
  induction fuel generalizing low high with
  | zero => exact ⟨_, rfl⟩
  | succ fuel ih =>
    rw [placeIn]
    split
    · dsimp only
      split
      · exact ⟨_, rfl⟩
      · rename_i b hb
        obtain ⟨less', hless⟩ := h b (List.mem_of_getElem? hb)
        rw [hless, ok_bind]
        split
        · exact ih _ _
        · exact ih _ _
    · exact ⟨_, rfl⟩

theorem exists_insertAll
    (h : ∀ b ∈ sorted ++ as, ∀ c ∈ sorted ++ as, ∃ r, less b c = .ok r) :
    ∃ r, insertAll less sorted as = .ok r := by
  induction as generalizing sorted with
  | nil => exact ⟨_, rfl⟩
  | cons a as ih =>
    have hcompared : ∀ b ∈ sorted, ∃ r, less a b = .ok r :=
      fun b hb => h a (by simp) b (List.mem_append_left _ hb)
    obtain ⟨i, hi⟩ := exists_placeIn hcompared sorted.length 0 sorted.length
    rw [insertAll, hi, ok_bind]
    have hmem : ∀ b ∈ sorted.take i ++ a :: sorted.drop i ++ as, b ∈ sorted ++ a :: as := by
      intro b hb
      simp only [List.mem_append, List.mem_cons] at hb ⊢
      rcases hb with (hb | rfl | hb) | hb
      · exact .inl (List.mem_of_mem_take hb)
      · exact .inr (.inl rfl)
      · exact .inl (List.mem_of_mem_drop hb)
      · exact .inr (.inr hb)
    exact ih fun b hb c hc => h b (hmem b hb) c (hmem c hc)

/-- Elements are sorted if any two of them can be compared. -/
theorem exists_sortBy (h : ∀ a ∈ as, ∀ b ∈ as, ∃ r, less a b = .ok r) :
    ∃ r, sortBy less as = .ok r := by
  match as with
  | [] => exact ⟨_, rfl⟩
  | [a] => exact ⟨_, rfl⟩
  | a :: b :: cs =>
    obtain ⟨descends, hba⟩ := h b (by simp) a (by simp)
    obtain ⟨⟨run, rest⟩, hrun⟩ := exists_runFrom descends
      fun c hc d hd => h c (List.mem_cons_of_mem a hc) d (List.mem_cons_of_mem a hd)
    rw [sortBy, hba, ok_bind, hrun, ok_bind]
    refine exists_insertAll fun c hc d hd => ?_
    have hmem : ∀ c ∈ (if descends then (a :: b :: run).reverse else a :: b :: run) ++ rest,
        c ∈ a :: b :: cs := by
      intro c hc
      rw [← runFrom_append hrun]
      split at hc <;> simpa [or_comm, or_left_comm, or_assoc] using hc
    exact h c (hmem c hc) d (hmem d hd)

end Total

end Sorting

section Keys

/-- The sorts of keys that are written and can be compared. -/
inductive KeySort
  | text
  | number
  deriving DecidableEq

def keySort? : Scalar → Option KeySort
  | .str _ => some .text
  | .bool _ | .int _ | .float _ => some .number
  | _ => none

variable {α : Type} {a b : Scalar} {s : KeySort} {es r : List (Scalar × α)}

/-- Only keys of one sort are compared, and null is compared with nothing. -/
theorem keySort?_of_keyLess {less : Bool} (h : keyLess a b = .ok less) :
    keySort? a = keySort? b ∧ a ≠ .null ∧ b ≠ .null := by
  cases a <;> cases b <;> first | (cases h; done) | exact ⟨rfl, nofun, nofun⟩

theorem exists_keyLess (ha : keySort? a = some s) (hb : keySort? b = some s) :
    ∃ less, keyLess a b = .ok less := by
  cases a <;> cases ha <;> cases b <;> cases hb <;> exact ⟨_, rfl⟩

theorem mapM_textKey? {ts : List (String × Scalar × α)}
    (h : es.mapM (fun e => (textKey? e.1).map (·, e)) = some ts) :
    ts.map (·.2) = es ∧ ∀ e ∈ es, keySort? e.1 = some .text := by
  induction es generalizing ts with
  | nil =>
    cases h
    exact ⟨rfl, nofun⟩
  | cons e es ih =>
    rw [List.mapM_cons] at h
    obtain ⟨p, hp, h⟩ := Option.bind_eq_some_iff.1 h
    obtain ⟨ts', hts, h⟩ := Option.bind_eq_some_iff.1 h
    obtain ⟨s, hs, rfl⟩ := Option.map_eq_some_iff.1 hp
    obtain ⟨hmap, hsort⟩ := ih hts
    cases h
    refine ⟨congrArg (e :: ·) hmap, List.forall_mem_cons.2 ⟨?_, hsort⟩⟩
    obtain ⟨k, v⟩ := e
    cases k <;> first | rfl | nomatch hs

theorem perm_sortEntries (h : sortEntries es = .ok r) : r.Perm es := by
  rw [sortEntries] at h
  split at h
  · rename_i ts hts
    cases h
    have hperm := (List.mergeSort_perm ts fun a b => !decide (b.1 < a.1)).map (·.2)
    rwa [(mapM_textKey? hts).1] at hperm
  · exact perm_sortBy h

/-- Entries that are sorted are few, or their keys are of one sort and none is null. -/
theorem keySort?_of_sortEntries (h : sortEntries es = .ok r) :
    es.length ≤ 1 ∨ ∃ s, ∀ e ∈ es, keySort? e.1 = s ∧ e.1 ≠ .null := by
  rw [sortEntries] at h
  split at h
  · rename_i ts hts
    refine .inr ⟨some .text, fun e he => ?_⟩
    have htext := (mapM_textKey? hts).2 e he
    exact ⟨htext, fun hnull => by rw [hnull] at htext; nomatch htext⟩
  · match es with
    | [] => exact .inl (Nat.zero_le 1)
    | [e] => exact .inl (Nat.le_refl 1)
    | e :: e' :: es =>
      -- A date has no sort either, though dates can be compared: null needs a class of its own.
      have hclass (e e' : Scalar × α) (less : Bool) (h : keyLess e.1 e'.1 = .ok less) :
          (keySort? e.1, decide (e.1 = .null)) = (keySort? e'.1, decide (e'.1 = .null)) := by
        obtain ⟨hsort, hnull, hnull'⟩ := keySort?_of_keyLess h
        rw [hsort, decide_eq_false hnull, decide_eq_false hnull']
      obtain ⟨⟨less, hless⟩, hall⟩ := eq_of_sortBy
        (f := fun e : Scalar × α => (keySort? e.1, decide (e.1 = .null))) hclass h
      refine .inr ⟨keySort? e.1, fun c hc => ?_⟩
      obtain ⟨hsort, hnull⟩ := Prod.mk.inj (hall c hc)
      rw [decide_eq_false (keySort?_of_keyLess hless).2.2] at hnull
      exact ⟨hsort, of_decide_eq_false hnull⟩

theorem exists_sortEntries (h : es.length ≤ 1 ∨ ∃ s, ∀ e ∈ es, keySort? e.1 = some s) :
    ∃ r, sortEntries es = .ok r := by
  rw [sortEntries]
  split
  · exact ⟨_, rfl⟩
  · rcases h with hfew | ⟨s, hs⟩
    · match es with
      | [] => exact ⟨_, rfl⟩
      | [e] => exact ⟨_, rfl⟩
    · exact exists_sortBy fun e he e' he' => exists_keyLess (hs e he) (hs e' he')

end Keys

end BuildPipeline.Json
