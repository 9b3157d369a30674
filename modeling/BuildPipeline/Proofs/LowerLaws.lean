import BuildPipeline.Graph.FieldName

/-!
Lower case is settled after one pass: no character that it gives is moved again, so that lowering a
text twice is lowering it once, and no capital is left. The same holds for names in snake case.
-/

namespace BuildPipeline

namespace Text

section Runs

/-- Whether a run moves a character number. -/
def moves (n : Nat) : Nat × Nat × Nat × Int → Bool
  | (lo, hi, step, _) => lo ≤ n && n ≤ hi && (n - lo) % step == 0

/-- Whether every `step`-th character from `lo` to `hi` lies outside of a run: below it, above it,
or between its characters. -/
def apart (lo hi step : Nat) : Nat × Nat × Nat × Int → Bool
  | (lo', hi', step', _) => Nat.blt hi lo' || Nat.blt hi' lo
    || (lo == hi || step == 2) && (lo' == hi' || step' == 2) && (lo + lo') % 2 == 1

/-- The numbers of the first and the last character in the runs of a list. -/
def spanned (runs : List (Nat × Nat × Nat × Int)) : Nat × Nat :=
  runs.foldr (fun q s => (min q.1 s.1, max q.2.1 s.2)) (0x110000, 0)

/-- Whether every `step`-th character from `lo` to `hi` lies outside of all runs of a list. A part of
the list that has all its characters on one side is passed over, and another one is halved, a number
of times, before its runs are looked at one by one. -/
def allApart (lo hi step : Nat) : Nat → List (Nat × Nat × Nat × Int) → Bool
  | 0, runs => runs.all (apart lo hi step)
  | n + 1, runs => Nat.blt hi (spanned runs).1 || Nat.blt (spanned runs).2 lo
    || allApart lo hi step n (runs.take (runs.length / 2))
      && allApart lo hi step n (runs.drop (runs.length / 2))

/-- The runs of capitals, the one of the first characters included. -/
def capitalRuns : List (Nat × Nat × Nat × Int) := (0x41, 0x5A, 1, 32) :: lowerRuns

/-- The capital that becomes two characters. -/
def dottedRun : Nat × Nat × Nat × Int := (0x130, 0x130, 1, 0)

variable {r q : Nat × Nat × Nat × Int} {runs : List (Nat × Nat × Nat × Int)} {m n : Nat}
  {lo hi step : Nat}

theorem spanned_of_mem (hq : q ∈ runs) : (spanned runs).1 ≤ q.1 ∧ q.2.1 ≤ (spanned runs).2 := by
  induction runs with
  | nil => cases hq
  | cons r runs ih =>
    rw [spanned, List.foldr_cons, ← spanned]
    rcases List.mem_cons.1 hq with rfl | hq
    · exact ⟨Nat.min_le_left .., Nat.le_max_left ..⟩
    · obtain ⟨hlo, hhi⟩ := ih hq
      exact ⟨Nat.le_trans (Nat.min_le_right ..) hlo, Nat.le_trans hhi (Nat.le_max_right ..)⟩

theorem apart_of_allApart (h : allApart lo hi step n runs) (hq : q ∈ runs) :
    apart lo hi step q := by
  induction n generalizing runs with
  | zero => exact List.all_eq_true.1 h q hq
  | succ n ih =>
    simp only [allApart, Bool.or_eq_true, Bool.and_eq_true, Nat.blt_eq] at h
    rcases h with hside | ⟨htake, hdrop⟩
    · obtain ⟨lo', hi', step', shift'⟩ := q
      have hspanned : (spanned runs).1 ≤ lo' ∧ hi' ≤ (spanned runs).2 := spanned_of_mem hq
      simp only [apart, Bool.or_eq_true, Nat.blt_eq]
      omega
    · rw [← List.take_append_drop (runs.length / 2) runs, List.mem_append] at hq
      exact hq.elim (ih htake) (ih hdrop)

/-- What the runs give lies outside of all of them. -/
theorem apart_capitalRuns : capitalRuns.all fun (lo, hi, step, shift) => 0 ≤ lo + shift
    && allApart (lo + shift).toNat (hi + shift).toNat step 4 (dottedRun :: capitalRuns) := by
  decide +kernel

/-- No run moves what a run gives. -/
theorem not_moves_of_mem (hr : r ∈ capitalRuns) (hmoves : moves n r)
    (hm : (m : Int) = n + r.2.2.2) (hq : q ∈ dottedRun :: capitalRuns) : moves m q = false := by
  have hr := List.all_eq_true.1 apart_capitalRuns r hr
  obtain ⟨lo, hi, step, shift⟩ := r
  obtain ⟨hshift, hapart⟩ := Bool.and_eq_true_iff.1 hr
  have h := apart_of_allApart hapart hq
  obtain ⟨lo', hi', step', shift'⟩ := q
  rw [Bool.eq_false_iff]
  intro hq
  simp only [apart, moves, Bool.or_eq_true, Bool.and_eq_true, decide_eq_true_eq, beq_iff_eq,
    Nat.blt_eq] at hshift h hmoves hq hm
  rcases h with (h | h) | ⟨⟨hstep, hstep'⟩, hodd⟩
  · omega
  · omega
  -- between the characters of a run the parity is the other one, unless there is only one character
  · rcases hstep with hstep | rfl <;> rcases hstep' with rfl | rfl <;> omega

end Runs

section Characters

variable {c x : Char}

theorem toNat_ofNat {n : Nat} (h : n.isValidChar) : (Char.ofNat n).toNat = n := by
  rw [Char.ofNat, dif_pos h]
  rfl

/-- A character that no run moves stays. -/
theorem lowerChar_of_not_moves (h : ∀ q ∈ dottedRun :: capitalRuns, moves c.toNat q = false) :
    lowerChar c = [c] := by
  have hascii : moves c.toNat (0x41, 0x5A, 1, 32) = false := h _ (by simp [capitalRuns])
  have hdot : c.toNat ≠ 0x130 := fun hc => by
    have := h dottedRun (by simp)
    rw [hc] at this
    exact Bool.noConfusion this
  have hfind : lowerRuns.find? (moves c.toNat) = none :=
    List.find?_eq_none.2 fun q hq => by simp [h q (by simp [capitalRuns, hq])]
  rw [lowerChar]
  simp only [hdot, if_false]
  split
  · rw [if_neg]
    simpa [moves, Nat.mod_one] using hascii
  · split
    · rename_i hrun
      cases hrun.symm.trans hfind
    · rfl

theorem lowerChar_cases (c : Char) : c.toNat = 0x130 ∨ lowerChar c = [c]
    ∨ ∃ r ∈ capitalRuns, moves c.toNat r
      ∧ lowerChar c = [Char.ofNat (c.toNat + r.2.2.2).toNat] := by
  rw [lowerChar]
  dsimp only
  split
  · split
    · rename_i h
      refine .inr (.inr ⟨(0x41, 0x5A, 1, 32), by simp [capitalRuns], ?_, rfl⟩)
      simp [moves, h, Nat.mod_one]
    · exact .inr (.inl rfl)
  · split
    · exact .inl ‹_›
    · split
      · rename_i lo hi step shift hrun
        have hmem := List.mem_of_find?_eq_some hrun
        refine .inr (.inr ⟨(lo, hi, step, shift), by simp [capitalRuns, hmem], ?_, rfl⟩)
        exact List.find?_some hrun
      · exact .inr (.inl rfl)

/-- What lower case gives is in lower case. -/
theorem lowerChar_of_mem (h : x ∈ lowerChar c) : lowerChar x = [x] := by
  rcases lowerChar_cases c with hc | hc | ⟨r, hr, hmoves, hc⟩
  · rw [lowerChar, hc] at h
    simp only [show ¬(304 < 128) by decide, if_false, if_true, List.mem_cons,
      List.not_mem_nil, or_false] at h
    rcases h with rfl | rfl <;> decide
  · rw [hc, List.mem_singleton] at h
    rw [h, hc]
  · rw [hc, List.mem_singleton] at h
    subst h
    generalize hm : (c.toNat + r.2.2.2).toNat = m
    by_cases hchar : m ≠ 0 ∧ m.isValidChar
    · refine lowerChar_of_not_moves fun q => not_moves_of_mem hr hmoves ?_
      rw [toNat_ofNat hchar.2]
      omega
    · -- a number that no character has gives the character of number zero
      have hzero : Char.ofNat m = Char.ofNat 0 := by
        by_cases h : m = 0
        · rw [h]
        · rw [Char.ofNat, dif_neg fun hvalid => hchar ⟨h, hvalid⟩]
          rfl
      rw [hzero]
      decide

theorem isCapital_of_lowerChar (h : lowerChar c = [c]) : isCapital c = false := by
  rw [Bool.eq_false_iff]
  intro hcapital
  simp only [isCapital, Bool.and_eq_true, decide_eq_true_eq] at hcapital
  have hlo : 0x41 ≤ c.toNat := hcapital.1
  have hhi : c.toNat ≤ 0x5A := hcapital.2
  rw [lowerChar] at h
  simp only [show c.toNat < 0x80 by omega, hlo, hhi, decide_true, Bool.and_self, if_true] at h
  have hn := congrArg Char.toNat (List.cons.inj h).1
  rw [toNat_ofNat (.inl (by omega))] at hn
  omega

end Characters

section Texts

variable {x : Char} {cs before : List Char}

theorem lowerChar_of_mem_lowerAfter (h : x ∈ lowerAfter before cs) : lowerChar x = [x] := by
  induction cs generalizing before with
  | nil => cases h
  | cons c cs ih =>
    rw [lowerAfter] at h
    rcases List.mem_append.1 h with h | h
    · -- both forms of the small sigma are settled
      split at h
      · split at h <;> rw [List.mem_singleton] at h <;> subst h <;> decide
      · exact lowerChar_of_mem h
    · exact ih h

theorem lowerAfter_of_lowerChar (h : ∀ c ∈ cs, lowerChar c = [c]) : lowerAfter before cs = cs := by
  induction cs generalizing before with
  | nil => rfl
  | cons c cs ih =>
    have hc := h c List.mem_cons_self
    have hsigma : c ≠ 'Σ' := by
      rintro rfl
      exact absurd hc (by decide)
    rw [lowerAfter, if_neg hsigma, hc, ih fun d hd => h d (List.mem_cons_of_mem c hd)]
    rfl

theorem lowerChar_of_mem_lower {s : String} (h : x ∈ (lower s).toList) : lowerChar x = [x] := by
  rw [lower, String.toList_ofList] at h
  exact lowerChar_of_mem_lowerAfter h

theorem lower_lower (s : String) : lower (lower s) = lower s := by
  rw [lower, lowerAfter_of_lowerChar fun c => lowerChar_of_mem_lower, String.ofList_toList]

end Texts

end Text

section Snake

open Text

theorem splitWords_of_lowerChar {p : Char} {cs : List Char} (h : ∀ c ∈ cs, lowerChar c = [c]) :
    splitWords p cs = cs := by
  induction cs generalizing p with
  | nil => rfl
  | cons c cs ih =>
    rw [splitWords, isCapital_of_lowerChar (h c List.mem_cons_self), Bool.and_false,
      ih fun d hd => h d (List.mem_cons_of_mem c hd)]
    rfl

/-- A name in snake case is its own spelling. -/
theorem snake_snake (s : String) : snake (snake s) = snake s := by
  rw [snake, splitWords_of_lowerChar, String.ofList_toList, snake, lower_lower]
  rw [snake]
  exact fun c => lowerChar_of_mem_lower

end Snake

end BuildPipeline
