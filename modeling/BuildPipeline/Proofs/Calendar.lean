import BuildPipeline.Time.Moment

/-! Laws of the calendar: every ordinal from 1 to that of the last day of year 9999 has a date, and
the date has that ordinal. -/

namespace BuildPipeline.Time

/-- A day that the calendar has. -/
structure Date.Valid (d : Date) : Prop where
  year : 1 ≤ d.year ∧ d.year ≤ 9999
  month : 1 ≤ d.month ∧ d.month ≤ 12
  day : 1 ≤ d.day ∧ d.day ≤ daysInMonth d.year d.month

def daysInYear (y : Nat) : Nat := if isLeap y then 366 else 365

theorem le_daysInYear (y : Nat) : 365 ≤ daysInYear y := by
  rw [daysInYear]
  split <;> omega

theorem daysInMonth_le (y m : Nat) : daysInMonth y m ≤ 31 := by
  rw [daysInMonth]
  split
  · decide
  · have hall : ∀ n ∈ monthLengths, n ≤ 31 := by decide
    cases h : monthLengths[m - 1]? with
    | none => simp [List.getD, h]
    | some n => simpa [List.getD, h] using hall n (List.mem_of_getElem? h)

theorem daysBeforeMonth_succ (y : Nat) {m : Nat} (h : 1 ≤ m) :
    daysBeforeMonth y (m + 1) = daysBeforeMonth y m + daysInMonth y m := by
  obtain ⟨k, rfl⟩ := Nat.exists_eq_add_of_le' h
  simp [daysBeforeMonth, List.range_succ]

@[simp] theorem daysBeforeMonth_january (y : Nat) : daysBeforeMonth y 1 = 0 := rfl

theorem daysBeforeMonth_december (y : Nat) :
    daysBeforeMonth y 12 + daysInMonth y 12 = daysInYear y := by
  by_cases h : isLeap y
  · simp [daysBeforeMonth, daysInMonth, daysInYear, h, List.range_succ, monthLengths]
  · simp [daysBeforeMonth, daysInMonth, daysInYear, h, List.range_succ, monthLengths]

namespace Date

/-- The invariant of the search for a month: the days before month `m` are taken off, and what is
left stays within the year. -/
theorem inYear_spec {y : Nat} (hy : 1 ≤ y ∧ y ≤ 9999) (fuel m n : Nat) (hm : 1 ≤ m)
    (hf : m + fuel = 12) (hn : daysBeforeMonth y m + n < daysInYear y) :
    (inYear y fuel m n).Valid ∧ (inYear y fuel m n).year = y
      ∧ daysBeforeMonth y (inYear y fuel m n).month + (inYear y fuel m n).day
        = daysBeforeMonth y m + n + 1 := by
  induction fuel generalizing m n with
  | zero =>
    obtain rfl : m = 12 := by omega
    have := daysBeforeMonth_december y
    exact ⟨⟨hy, ⟨hm, Nat.le_refl 12⟩, by simp [inYear]; omega⟩, rfl, rfl⟩
  | succ fuel ih =>
    rw [inYear]
    split
    · exact ⟨⟨hy, ⟨hm, by simp; omega⟩, by simp; omega⟩, rfl, rfl⟩
    · have hsucc := daysBeforeMonth_succ y hm
      obtain ⟨hv, hyear, hsum⟩ := ih (m + 1) (n - daysInMonth y m) (by omega) (by omega)
        (by omega)
      exact ⟨hv, hyear, by omega⟩

/-- Four hundred, one hundred, four and one years at a time. -/
theorem daysBeforeYear_cycles (a b c d : Nat) (hb : b ≤ 3) (hc : c ≤ 24) (hd : d ≤ 3) :
    daysBeforeYear (a * 400 + b * 100 + c * 4 + d + 1)
      = a * 146097 + b * 36524 + c * 1461 + d * 365 := by
  simp only [daysBeforeYear, Nat.add_sub_cancel]
  omega

theorem isLeap_cycles (a b c : Nat) (hc : c ≤ 24) (h : b = 3 ∨ c < 24) :
    isLeap (a * 400 + b * 100 + c * 4 + 4) = true := by
  simp only [isLeap, Bool.and_eq_true, Bool.or_eq_true, beq_iff_eq, bne_iff_ne]
  omega

theorem ordinal_lastDay {a b c y : Nat} (hb : b ≤ 3) (hc : c ≤ 24) (h : b = 3 ∨ c < 24)
    (hy : y = a * 400 + b * 100 + c * 4 + 4) (hle : y ≤ 9999) :
    (⟨y, 12, 31⟩ : Date).Valid
      ∧ (⟨y, 12, 31⟩ : Date).ordinal = a * 146097 + b * 36524 + c * 1461 + 1461 := by
  have hleap : isLeap y = true := hy ▸ isLeap_cycles a b c hc h
  have hbefore : daysBeforeYear y = a * 146097 + b * 36524 + c * 1461 + 1095 := by
    simpa [hy] using daysBeforeYear_cycles a b c 3 hb hc (Nat.le_refl 3)
  have hdecember := daysBeforeMonth_december y
  have hlength : daysInMonth y 12 = 31 := rfl
  rw [daysInYear, if_pos hleap] at hdecember
  refine ⟨⟨⟨by simp; omega, hle⟩, by simp, by simp [hlength]⟩, ?_⟩
  rw [ordinal]
  dsimp only
  omega

theorem ofOrdinal_spec {n : Nat} (h : n < 3652059) :
    (ofOrdinal (n + 1)).Valid ∧ (ofOrdinal (n + 1)).ordinal = n + 1 := by
  simp only [ofOrdinal, Nat.add_sub_cancel]
  generalize ha : n / 146097 = a
  generalize hr : n % 146097 = r
  generalize hb : r / 36524 = b
  generalize hs : r % 36524 = s
  generalize hc : s / 1461 = c
  generalize ht : s % 1461 = t
  generalize hd : t / 365 = d
  split
  case isTrue hlast =>
    obtain ⟨b', c', hb', hc', hbc, hsum⟩ : ∃ b' c', b' ≤ 3 ∧ c' ≤ 24 ∧ (b' = 3 ∨ c' < 24)
        ∧ b * 100 + c * 4 + d = b' * 100 + c' * 4 + 4
        ∧ r + 1 = b' * 36524 + c' * 1461 + 1461 := by
      rcases hlast with rfl | rfl
      · exact ⟨b, c, by omega⟩
      · exact ⟨3, 24, by omega⟩
    obtain ⟨hv, ho⟩ := ordinal_lastDay (a := a) (y := a * 400 + b * 100 + c * 4 + d) hb' hc' hbc
      (by omega) (by omega)
    exact ⟨hv, by omega⟩
  case isFalse hlast =>
    have hbefore := daysBeforeYear_cycles a b c d (by omega) (by omega) (by omega)
    have hlength := le_daysInYear (a * 400 + b * 100 + c * 4 + d + 1)
    obtain ⟨hv, hyear, hsum⟩ := inYear_spec (y := a * 400 + b * 100 + c * 4 + d + 1) (by omega) 11 1
      (t % 365) (Nat.le_refl 1) rfl (by rw [daysBeforeMonth_january]; omega)
    refine ⟨hv, ?_⟩
    rw [ordinal, hyear, hbefore]
    rw [daysBeforeMonth_january] at hsum
    omega

theorem make_of_valid {d : Date} (h : d.Valid) : make d.year d.month d.day = .ok d := by
  obtain ⟨hy, hm, hd⟩ := h
  rw [make, if_neg (by omega), if_neg (by omega), if_neg (by omega)]

end Date

theorem Moment.date_spec {t : Moment} (h : t.micros < horizon) :
    t.date.Valid ∧ t.date.ordinal = t.micros / day + 1 :=
  Date.ofOrdinal_spec ((Nat.div_lt_iff_lt_mul (by decide)).2 h)

end BuildPipeline.Time
