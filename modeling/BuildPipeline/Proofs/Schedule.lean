import BuildPipeline.Graph.Plan
import Mathlib.Data.List.Perm.Subperm
import Mathlib.Order.WellFounded
import Mathlib.Order.RelClasses
import Mathlib.Data.Fintype.EquivFin
import Mathlib.Data.Set.Finite.Basic
import Mathlib.Logic.Relation

/-! Schedules over places.  A frontier tracks what is scheduled, so that `schedule` always takes
the least place whose predecessors have all been taken, whatever order successors are visited in. -/

namespace BuildPipeline.Graph

theorem mem_insertPlace {i j : Nat} {js : List Nat} : j ∈ insertPlace i js ↔ j = i ∨ j ∈ js := by
  induction js with
  | nil => simp [insertPlace]
  | cons k ks ih =>
    rw [insertPlace]
    split
    · simp
    · rw [List.mem_cons, ih, List.mem_cons]
      tauto

theorem pairwise_insertPlace {i : Nat} {js : List Nat} (h : js.Pairwise (· < ·)) (hi : i ∉ js) :
    (insertPlace i js).Pairwise (· < ·) := by
  induction js with
  | nil => simp [insertPlace]
  | cons k ks ih =>
    obtain ⟨hk, hks⟩ := List.pairwise_cons.1 h
    obtain ⟨hne, hi⟩ : i ≠ k ∧ i ∉ ks := by simpa using hi
    rw [insertPlace]
    split
    · rename_i hle
      refine List.pairwise_cons.2 ⟨fun j hj => ?_, h⟩
      rcases List.mem_cons.1 hj with rfl | hj
      · omega
      · have := hk j hj
        omega
    · refine List.pairwise_cons.2 ⟨fun j hj => ?_, ih hks hi⟩
      rcases mem_insertPlace.1 hj with rfl | hj
      · omega
      · exact hk j hj

/-- A place that may come next after the places `done`. -/
def isOpen (links : List (Nat × Nat)) (done : List Nat) (i : Nat) : Bool :=
  !done.contains i && links.all fun l => l.2 != i || done.contains l.1

theorem isOpen_iff {links : List (Nat × Nat)} {done : List Nat} {i : Nat} :
    isOpen links done i = true ↔ i ∉ done ∧ ∀ a, (a, i) ∈ links → a ∈ done := by
  simp only [isOpen, Bool.and_eq_true, Bool.not_eq_true', List.contains_eq_mem,
    decide_eq_false_iff_not, List.all_eq_true, Bool.or_eq_true, bne_iff_ne, decide_eq_true_eq]
  refine and_congr_right fun _ => ⟨fun h a ha => ?_, fun h l hl => ?_⟩
  · exact (h (a, i) ha).resolve_left (by simp)
  · by_cases hi : l.2 = i
    · exact Or.inr (h l.1 (by rwa [← hi]))
    · exact Or.inl hi

/-- The first open place again and again, `fuel` times at most. -/
def greedyFrom (links : List (Nat × Nat)) (n : Nat) : Nat → List Nat → List Nat
  | 0, _ => []
  | fuel + 1, done =>
    match (List.range n).find? (isOpen links done) with
    | none => []
    | some i => i :: greedyFrom links n fuel (done ++ [i])

/-- The links that a place still waits for. -/
def pending (links : List (Nat × Nat)) (done : List Nat) : List (Nat × Nat) :=
  links.filter fun l => !done.contains l.1

section Tracking

/-- A frontier counts the links in `waits` and holds the places that wait for nothing. -/
structure Tracks (n : Nat) (done : List Nat) (waits : List (Nat × Nat)) (f : Frontier) : Prop where
  sorted : f.ready.Pairwise (· < ·)
  mem_ready : ∀ i, i ∈ f.ready ↔ i < n ∧ i ∉ done ∧ ∀ l ∈ waits, l.2 ≠ i
  size : f.waiting.length = n
  count : ∀ i < n, f.waiting.getD i 0 = waits.countP (·.2 == i)
  bound : ∀ l ∈ waits, l.2 < n ∧ l.2 ∉ done

variable {n : Nat} {done : List Nat} {links waits waits' : List (Nat × Nat)} {f : Frontier}

theorem Tracks.perm (h : Tracks n done waits f) (hp : waits.Perm waits') :
    Tracks n done waits' f where
  sorted := h.sorted
  mem_ready i := by rw [h.mem_ready]; simp only [hp.mem_iff]
  size := h.size
  count i hi := by rw [h.count i hi, hp.countP_eq]
  bound l hl := h.bound l (hp.mem_iff.2 hl)

theorem Tracks.frontier (hl : ∀ l ∈ links, l.2 < n) : Tracks n [] links (frontier links n) := by
  have hcount : ∀ i < n, ((List.range n).map fun i => links.countP (·.2 == i)).getD i 0
      = links.countP (·.2 == i) := by
    intro i hi
    simp [List.getD_eq_getElem?_getD, hi]
  constructor
  · exact List.pairwise_lt_range.filter _
  · intro i
    simp only [Graph.frontier, List.mem_filter, List.mem_range, List.not_mem_nil,
      not_false_eq_true, true_and]
    refine and_congr_right fun hi => ?_
    rw [hcount i hi]
    simp [List.countP_eq_zero]
  · simp [Graph.frontier]
  · exact hcount
  · intro l h
    exact ⟨hl l h, List.not_mem_nil⟩

/-- Releasing a place takes one link that it waits for off the count. -/
theorem Tracks.release {i j : Nat} (h : Tracks n done ((i, j) :: waits) f) :
    Tracks n done waits (f.release j) := by
  obtain ⟨hj, hjd⟩ := h.bound (i, j) List.mem_cons_self
  have hcount : f.waiting.getD j 0 - 1 = waits.countP (·.2 == j) := by
    rw [h.count j hj, List.countP_cons_of_pos (by simp)]
    omega
  have hready : j ∉ f.ready := fun hmem =>
    ((h.mem_ready j).1 hmem).2.2 (i, j) List.mem_cons_self rfl
  have hzero : f.waiting.getD j 0 - 1 = 0 ↔ ∀ l ∈ waits, l.2 ≠ j := by
    rw [hcount, List.countP_eq_zero]
    simp
  -- every other place waits for the same links as before
  have hother : ∀ k, k ≠ j → (k ∈ f.ready ↔ k < n ∧ k ∉ done ∧ ∀ l ∈ waits, l.2 ≠ k) := by
    intro k hk
    rw [h.mem_ready]
    simp [Ne.symm hk]
  constructor
  · simp only [Frontier.release]
    split
    · exact pairwise_insertPlace h.sorted hready
    · exact h.sorted
  · intro k
    simp only [Frontier.release]
    by_cases hk : k = j
    · subst hk
      split
      · rename_i h0
        exact iff_of_true (mem_insertPlace.2 (Or.inl rfl)) ⟨hj, hjd, hzero.1 h0⟩
      · rename_i h0
        exact iff_of_false hready fun hall => h0 (hzero.2 hall.2.2)
    · split
      · rw [mem_insertPlace, ← hother k hk]
        simp [hk]
      · exact hother k hk
  · simp [Frontier.release, h.size]
  · intro k hk
    simp only [Frontier.release]
    by_cases hkj : k = j
    · subst hkj
      rw [List.getD_eq_getElem?_getD, List.getElem?_set_self (by rw [h.size]; exact hk)]
      exact hcount
    · rw [List.getD_eq_getElem?_getD, List.getElem?_set_ne (Ne.symm hkj),
        ← List.getD_eq_getElem?_getD, h.count k hk]
      simp [Ne.symm hkj]
  · intro l hl
    exact h.bound l (List.mem_cons_of_mem _ hl)

theorem Tracks.releaseAll {i : Nat} {js : List Nat}
    (h : Tracks n done (js.map (i, ·) ++ waits) f) :
    Tracks n done waits (js.foldl Frontier.release f) := by
  induction js generalizing f with
  | nil => exact h
  | cons j js ih => exact ih (Tracks.release h)

/-- The least ready place is the first open one. -/
theorem Tracks.head?_ready (h : Tracks n done (pending links done) f) :
    f.ready.head? = (List.range n).find? (isOpen links done) := by
  have hopen : ∀ i, i ∈ f.ready ↔ i < n ∧ isOpen links done i = true := by
    intro i
    rw [h.mem_ready, isOpen_iff]
    refine and_congr_right fun _ => and_congr_right fun _ => ⟨fun hw a ha => ?_, fun hw l hl => ?_⟩
    · by_contra hna
      exact hw (a, i) (List.mem_filter.2 ⟨ha, by simp [hna]⟩) rfl
    · rintro rfl
      obtain ⟨hmem, hnd⟩ := List.mem_filter.1 hl
      simp [hw l.1 hmem] at hnd
  cases hr : f.ready with
  | nil =>
    symm
    rw [List.head?_nil, List.find?_eq_none]
    intro i hi ho
    have := (hopen i).2 ⟨List.mem_range.1 hi, ho⟩
    simp [hr] at this
  | cons i ready =>
    symm
    rw [List.head?_cons, List.find?_range_eq_some]
    obtain ⟨hi, ho⟩ := (hopen i).1 (by simp [hr])
    refine ⟨ho, List.mem_range.2 hi, fun j hj => ?_⟩
    by_contra hno
    have hmem := (hopen j).2 ⟨by omega, by simpa using hno⟩
    have hlt := (List.pairwise_cons.1 (hr ▸ h.sorted)).1
    rcases List.mem_cons.1 (hr ▸ hmem) with rfl | hmem
    · omega
    · have := hlt j hmem
      omega

end Tracking

section Greedy

variable {n : Nat} {links : List (Nat × Nat)} {next : Nat → List Nat}

/-- The links of a place leave the pending ones when the place is scheduled. -/
theorem pending_perm {done : List Nat} {i : Nat} (hi : i ∉ done) :
    (pending links done).Perm
      ((successors links i).map (i, ·) ++ pending links (done ++ [i])) := by
  have hhere : (pending links done).filter (·.1 == i) = (successors links i).map (i, ·) := by
    simp only [pending, successors, List.filter_filter, List.map_map]
    rw [← List.map_id (List.filter _ _)]
    rw [show (fun l : Nat × Nat => l.1 == i && !done.contains l.1) = (·.1 == i) by
      funext l; by_cases h : l.1 = i <;> simp [h, hi]]
    refine List.map_congr_left fun l hl => ?_
    have : l.1 = i := by simpa using (List.mem_filter.1 hl).2
    simp [← this]
  have hrest : (pending links done).filter (!·.1 == i) = pending links (done ++ [i]) := by
    simp only [pending, List.filter_filter]
    congr 1
    funext l
    by_cases h : l.1 = i <;> simp [h]
  rw [← hhere, ← hrest]
  exact (List.filter_append_perm _ _).symm

/-- The order of visiting successors does not show: every schedule is the greedy one. -/
theorem schedule_eq_greedyFrom (hn : ∀ i, (next i).Perm (successors links i)) (fuel : Nat)
    {done : List Nat} {f : Frontier} (hf : Tracks n done (pending links done) f) :
    schedule next fuel f = greedyFrom links n fuel done := by
  induction fuel generalizing done f with
  | zero => rfl
  | succ fuel ih =>
    rw [schedule, greedyFrom, ← hf.head?_ready]
    cases hr : f.ready with
    | nil => rfl
    | cons i ready =>
      obtain ⟨hi, hid, hw⟩ := (hf.mem_ready i).1 (by simp [hr])
      have htaken : Tracks n (done ++ [i]) (pending links done) ⟨ready, f.waiting⟩ := by
        have hsort := List.pairwise_cons.1 (hr ▸ hf.sorted)
        refine ⟨hsort.2, fun j => ?_, hf.size, hf.count, fun l hl => ⟨(hf.bound l hl).1, ?_⟩⟩
        · have hj := hf.mem_ready j
          rw [hr, List.mem_cons] at hj
          have hne : j ∈ ready → j ≠ i := fun h => (hsort.1 j h).ne'
          simp only [List.mem_append, List.mem_singleton]
          tauto
        · simp [(hf.bound l hl).2, hw l hl]
      have hperm : (pending links done).Perm
          ((next i).map (i, ·) ++ pending links (done ++ [i])) :=
        (pending_perm hid).trans (((hn i).symm.map _).append_right _)
      exact congrArg (i :: ·) (ih (htaken.perm hperm).releaseAll)

theorem greedyFrom_congr {links' : List (Nat × Nat)} (h : ∀ l, l ∈ links ↔ l ∈ links') (n : Nat) :
    ∀ fuel done, greedyFrom links n fuel done = greedyFrom links' n fuel done := by
  have hopen : isOpen links = isOpen links' := by
    funext done i
    rw [Bool.eq_iff_iff, isOpen_iff, isOpen_iff]
    simp only [h]
  intro fuel
  induction fuel with
  | zero => intro _; rfl
  | succ fuel ih =>
    intro done
    simp only [greedyFrom, hopen, ih]

theorem greedyFrom_take (fuel : Nat) (done : List Nat) (k : Nat)
    (hk : k < (greedyFrom links n fuel done).length) :
    (List.range n).find? (isOpen links (done ++ (greedyFrom links n fuel done).take k))
      = some (greedyFrom links n fuel done)[k] := by
  induction fuel generalizing done k with
  | zero => simp [greedyFrom] at hk
  | succ fuel ih =>
    cases hi : (List.range n).find? (isOpen links done) with
    | none => simp [greedyFrom, hi] at hk
    | some i =>
      simp only [greedyFrom, hi] at hk ⊢
      cases k with
      | zero => simpa using hi
      | succ k => simpa using ih (done ++ [i]) k (by simpa using hk)

theorem greedyFrom_fresh (fuel : Nat) (done : List Nat) :
    (greedyFrom links n fuel done).Nodup ∧ ∀ i ∈ greedyFrom links n fuel done, i < n ∧ i ∉ done := by
  induction fuel generalizing done with
  | zero => simp [greedyFrom]
  | succ fuel ih =>
    cases hi : (List.range n).find? (isOpen links done) with
    | none => simp [greedyFrom, hi]
    | some i =>
      obtain ⟨hnd, hfresh⟩ := ih (done ++ [i])
      have hio := (isOpen_iff.1 (List.find?_some hi)).1
      have hin := List.mem_range.1 (List.mem_of_find?_eq_some hi)
      simp only [greedyFrom, hi, List.nodup_cons, List.mem_cons]
      refine ⟨⟨fun h => (hfresh i h).2 (by simp), hnd⟩, ?_⟩
      rintro j (rfl | hj)
      · exact ⟨hin, hio⟩
      · exact ⟨(hfresh j hj).1, fun h => (hfresh j hj).2 (by simp [h])⟩

/-- No place leads back to itself along links. -/
def AcyclicLinks (links : List (Nat × Nat)) : Prop :=
  ∀ i, ¬ Relation.TransGen (fun a b => (a, b) ∈ links) i i

/-- Where each element has another one before it, each has a cycle behind it. -/
theorem exists_cycle_behind {α : Type} {r : α → α → Prop} {as : List α}
    (h : ∀ a ∈ as, ∃ b ∈ as, r b a) {a : α} (ha : a ∈ as) :
    ∃ c, Relation.TransGen r c c ∧ Relation.ReflTransGen r c a := by
  by_contra hnone
  push Not at hnone
  -- without a cycle some element behind `a` would be the first one
  let Behind := {b : α // b ∈ as ∧ Relation.ReflTransGen r b a}
  let R : Behind → Behind → Prop := fun b c => Relation.TransGen r b c
  have : Finite Behind := Set.Finite.to_subtype ((List.finite_toSet as).subset fun b hb => hb.1)
  have : IsTrans Behind R := ⟨fun _ _ _ => Relation.TransGen.trans⟩
  have : Std.Irrefl R := ⟨fun b hb => hnone b hb b.2.2⟩
  obtain ⟨m, -, hmin⟩ := (Finite.wellFounded_of_trans_of_irrefl R).has_min Set.univ
    ⟨⟨a, ha, .refl⟩, trivial⟩
  obtain ⟨b, hb, hbm⟩ := h m m.2.1
  exact hmin ⟨b, hb, m.2.2.head hbm⟩ trivial (.single hbm)

/-- A place that is left out at the end waits for another one that is left out. -/
theorem greedyFrom_stuck (fuel : Nat) {done : List Nat} (hd : done.Nodup) (hdn : ∀ i ∈ done, i < n)
    (hlen : done.length + fuel = n) {i : Nat} (hi : i < n)
    (hout : i ∉ done ++ greedyFrom links n fuel done) :
    ∃ a, (a, i) ∈ links ∧ a ∉ done ++ greedyFrom links n fuel done := by
  induction fuel generalizing done with
  | zero =>
    have hperm : done.Perm (List.range n) :=
      (List.subperm_of_subset hd fun j hj => List.mem_range.2 (hdn j hj)).perm_of_length_le
        (by rw [List.length_range]; omega)
    exact absurd (List.mem_append_left _ (hperm.mem_iff.2 (List.mem_range.2 hi))) hout
  | succ fuel ih =>
    cases hnext : (List.range n).find? (isOpen links done) with
    | none =>
      simp only [greedyFrom, hnext, List.append_nil] at hout ⊢
      have hclosed := List.find?_eq_none.1 hnext i (List.mem_range.2 hi)
      by_contra hall
      push Not at hall
      exact hclosed (isOpen_iff.2 ⟨hout, hall⟩)
    | some j =>
      have hjo := (isOpen_iff.1 (List.find?_some hnext)).1
      have hjn := List.mem_range.1 (List.mem_of_find?_eq_some hnext)
      have hsplit : done ++ greedyFrom links n (fuel + 1) done
          = (done ++ [j]) ++ greedyFrom links n fuel (done ++ [j]) := by
        simp [greedyFrom, hnext]
      rw [hsplit] at hout ⊢
      apply ih
      · exact List.nodup_append.2 ⟨hd, List.nodup_singleton j, by grind⟩
      · intro k hk
        rcases List.mem_append.1 hk with hk | hk
        · exact hdn k hk
        · rwa [List.mem_singleton.1 hk]
      · rw [List.length_append, List.length_singleton]
        omega
      · exact hout

/-- A place that is left out has a cycle behind it. -/
theorem exists_cycle_of_stuck (hb : ∀ l ∈ links, l.1 < n) {i : Nat} (hi : i < n)
    (hout : i ∉ greedyFrom links n n []) :
    ∃ c, Relation.TransGen (fun a b => (a, b) ∈ links) c c
      ∧ Relation.ReflTransGen (fun a b => (a, b) ∈ links) c i := by
  let stuck := (List.range n).filter (!(greedyFrom links n n []).contains ·)
  have hmem (j : Nat) : j ∈ stuck ↔ j < n ∧ j ∉ greedyFrom links n n [] := by simp [stuck]
  have hpred : ∀ j ∈ stuck, ∃ a ∈ stuck, (a, j) ∈ links := by
    intro j hj
    obtain ⟨hjn, hjout⟩ := (hmem j).1 hj
    obtain ⟨a, hlink, haout⟩ := greedyFrom_stuck n List.nodup_nil (by simp) (by simp) hjn hjout
    exact ⟨a, (hmem a).2 ⟨hb _ hlink, haout⟩, hlink⟩
  exact exists_cycle_behind hpred ((hmem i).2 ⟨hi, hout⟩)

theorem greedyFrom_perm (hc : AcyclicLinks links) (hb : ∀ l ∈ links, l.1 < n) :
    (greedyFrom links n n []).Perm (List.range n) := by
  rw [List.perm_ext_iff_of_nodup (greedyFrom_fresh n []).1 List.nodup_range]
  intro i
  rw [List.mem_range]
  constructor
  · exact fun hi => ((greedyFrom_fresh n []).2 i hi).1
  · intro hi
    by_contra hout
    obtain ⟨c, hcycle, -⟩ := exists_cycle_of_stuck hb hi hout
    exact hc c hcycle

end Greedy

end BuildPipeline.Graph
