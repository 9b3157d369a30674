import BuildPipeline.Proofs.Number.Rounding

/-!
The shortest digits of a float are read back: whatever grid they are found on, the float is the
nearest one to them.
-/

namespace BuildPipeline.Number

def Decimal.value (d : Decimal) : ℚ := d.digits * 10 ^ d.exponent

section Comparing

variable {a m : ℕ} {i q : ℤ}

theorem ten_zpow (q : ℤ) :
    (10 : ℚ) ^ q = (Nat.pow 10 q.toNat : ℕ) / (Nat.pow 10 (-q).toNat : ℕ) :=
  zpow_eq_div 10 (by decide) q

/-- What is compared are the two numbers times the denominators of their powers. -/
theorem compareScaled_eq (a : ℕ) (i : ℤ) (m : ℕ) (q : ℤ) : ∃ c : ℚ, 0 < c
    ∧ ((a * Nat.pow 10 i.toNat * Nat.pow 2 (-q).toNat : ℕ) : ℚ) = a * 10 ^ i * c
    ∧ ((m * Nat.pow 2 q.toNat * Nat.pow 10 (-i).toNat : ℕ) : ℚ) = m * 2 ^ q * c := by
  have hten : (0 : ℚ) < (Nat.pow 10 (-i).toNat : ℕ) := by
    exact_mod_cast Nat.pow_pos (by decide)
  have htwo : (0 : ℚ) < (Nat.pow 2 (-q).toNat : ℕ) := by
    exact_mod_cast Nat.two_pow_pos _
  refine ⟨(Nat.pow 10 (-i).toNat : ℕ) * (Nat.pow 2 (-q).toNat : ℕ), by positivity, ?_, ?_⟩
  · rw [ten_zpow, Nat.cast_mul, Nat.cast_mul]
    field_simp
  · rw [two_zpow, Nat.cast_mul, Nat.cast_mul]
    field_simp

theorem compareScaled_eq_gt : compareScaled a i m q = .gt ↔ (m * 2 ^ q : ℚ) < a * 10 ^ i := by
  obtain ⟨c, hc, hleft, hright⟩ := compareScaled_eq a i m q
  rw [compareScaled, Nat.compare_eq_gt, ← Nat.cast_lt (α := ℚ), hleft, hright,
    mul_lt_mul_iff_left₀ hc]

theorem compareScaled_eq_eq : compareScaled a i m q = .eq ↔ (a * 10 ^ i : ℚ) = m * 2 ^ q := by
  obtain ⟨c, hc, hleft, hright⟩ := compareScaled_eq a i m q
  rw [compareScaled, Nat.compare_eq_eq, ← Nat.cast_inj (R := ℚ), hleft, hright,
    mul_left_inj' hc.ne']

theorem compareScaled_eq_lt : compareScaled a i m q = .lt ↔ (a * 10 ^ i : ℚ) < m * 2 ^ q := by
  obtain ⟨c, hc, hleft, hright⟩ := compareScaled_eq a i m q
  rw [compareScaled, Nat.compare_eq_lt, ← Nat.cast_lt (α := ℚ), hleft, hright,
    mul_lt_mul_iff_left₀ hc]

end Comparing

section Shortest

variable {m : ℕ} {q e : ℤ} {d : Decimal}

theorem quarter (n : ℕ) (q : ℤ) : (n : ℚ) * 2 ^ (q - 2) = n / 4 * 2 ^ q := by
  rw [zpow_sub₀ two_ne_zero]
  norm_num
  ring

/-- What reads back lies near. -/
theorem near_of_readsBack (hm : m ≠ 0) (h : readsBack m q d) : Near m q d.value := by
  have hpow : (0 : ℚ) < 2 ^ q := by positivity
  have hlow : ((if narrowBelow m q then 4 * m - 1 else 4 * m - 2 : ℕ) : ℚ) * 2 ^ (q - 2)
      = lowEnd m q * 2 ^ q := by
    rw [quarter, lowEnd]
    congr 1
    split_ifs
    all_goals
      rw [Nat.cast_sub (by omega)]
      push_cast
      ring
  have hhigh : ((4 * m + 2 : ℕ) : ℚ) * 2 ^ (q - 2) = (m + 1 / 2) * 2 ^ q := by
    rw [quarter]
    congr 1
    push_cast
    ring
  simp only [readsBack, Bool.and_eq_true, Bool.or_eq_true, beq_iff_eq, compareScaled_eq_gt,
    compareScaled_eq_eq, compareScaled_eq_lt, hlow, hhigh] at h
  rw [← Decimal.value, ← lt_div_iff₀ hpow, ← div_lt_iff₀ hpow, ← div_eq_iff hpow.ne',
    ← div_eq_iff hpow.ne'] at h
  obtain ⟨hbelow, habove⟩ := h
  refine ⟨hbelow.elim le_of_lt fun h => h.2.ge, habove.elim le_of_lt fun h => h.2.le, ?_⟩
  rintro (heq | heq)
  · exact (hbelow.resolve_left (by simp [heq])).1
  · exact (habove.resolve_left (by simp [heq])).1

theorem readsBack_of_onGrid (h : onGrid m q e = some d) : readsBack m q d := by
  rw [onGrid] at h
  split at h
  · cases h
  · cases h
    assumption
  · cases h
    assumption
  · split at h
    all_goals
      cases h
    · assumption
    · assumption
    · split_ifs <;> assumption

theorem value_exactDecimal (m : ℕ) (q : ℤ) : (exactDecimal m q).value = m * 2 ^ q := by
  rw [exactDecimal, Decimal.value]
  simp only [Nat.pow_eq]
  push_cast
  split_ifs with hq
  · have hfive : (5 : ℚ) ^ (-q).toNat * 10 ^ q = 2 ^ q := by
      rw [← zpow_natCast, Int.toNat_of_nonneg (by omega), zpow_neg, inv_mul_eq_div, ← div_zpow]
      norm_num
    rw [Int.toNat_of_nonpos hq.le, pow_zero, mul_one, mul_assoc, hfive]
  · rw [Int.toNat_of_nonpos (by omega : -q ≤ 0), pow_zero, zpow_zero, mul_one, mul_one,
      ← zpow_natCast, Int.toNat_of_nonneg (by omega)]

theorem near_exact (m : ℕ) (q : ℤ) : Near m q (m * 2 ^ q) := by
  have hvalue : (m * 2 ^ q : ℚ) / 2 ^ q = m := mul_div_cancel_right₀ _ (by positivity)
  have hlow : lowEnd m q < m := by
    rw [lowEnd]
    split_ifs <;> linarith
  constructor <;> rw [hvalue]
  · exact hlow.le
  · linarith
  · rintro (heq | heq) <;> linarith

theorem value_stripZeros (fuel : ℕ) (d : Decimal) : (stripZeros fuel d).value = d.value := by
  induction fuel generalizing d with
  | zero => rfl
  | succ fuel ih =>
    rw [stripZeros]
    split_ifs with h
    · have hdigits : ((d.digits / 10 : ℕ) : ℚ) * 10 = d.digits := by
        exact_mod_cast Nat.div_mul_cancel (Nat.dvd_of_mod_eq_zero h.2)
      rw [ih, Decimal.value, Decimal.value, zpow_add_one₀ (by norm_num), mul_comm (_ ^ _),
        ← mul_assoc, hdigits]
    · rfl

/-- The shortest digits lie near the float that they stand for. -/
theorem near_shortest (hm : m ≠ 0) (q : ℤ) : Near m q (shortest m q).value := by
  rw [shortest, value_stripZeros]
  cases hfound : (List.range 17).findSome? fun n : ℕ => onGrid m q (scale m q - (n + 1)) with
  | none =>
    rw [Option.getD_none, value_exactDecimal]
    exact near_exact m q
  | some d =>
    obtain ⟨n, -, hgrid⟩ := List.exists_of_findSome?_eq_some hfound
    exact near_of_readsBack hm (readsBack_of_onGrid hgrid)

end Shortest

section Reading

variable {m a : ℕ} {q e : ℤ} {v : ℚ}

theorem Near.le (hm : m ≠ 0) (h : Near m q v) : (2 : ℚ) ^ (q - 1) ≤ v := by
  have hone : (1 : ℚ) ≤ m := by exact_mod_cast Nat.one_le_iff_ne_zero.2 hm
  have hlower := h.roundsTo.lower
  rw [le_div_iff₀ (by positivity)] at hlower
  calc (2 : ℚ) ^ (q - 1) = 1 / 2 * 2 ^ q := by rw [zpow_sub_one₀ two_ne_zero]; ring
    _ ≤ (m - 1 / 2) * 2 ^ q := by gcongr; linarith
    _ ≤ v := hlower

/-- The number of digits of a number tells its powers of ten. -/
theorem digits_spec (ha : a ≠ 0) :
    (10 : ℚ) ^ ((toString a).length - 1 : ℤ) ≤ a ∧ (a : ℚ) < 10 ^ ((toString a).length : ℤ) := by
  obtain ⟨k, hk⟩ : ∃ k, (toString a).length = k + 1 :=
    Nat.exists_eq_succ_of_ne_zero (Nat.toString_eq_repr ▸ Nat.length_repr_pos).ne'
  have hle (n : ℕ) (hn : 0 < n) : k + 1 ≤ n ↔ a < 10 ^ n := by
    rw [← hk, Nat.toString_eq_repr, Nat.length_repr_le_iff hn]
  rw [hk]
  constructor
  · rw [Nat.cast_succ, add_sub_cancel_right, zpow_natCast]
    rcases k.eq_zero_or_pos with rfl | hpos
    · exact_mod_cast Nat.one_le_iff_ne_zero.2 ha
    · exact_mod_cast not_lt.1 fun hlt => absurd ((hle k hpos).2 hlt) (by omega)
  · rw [zpow_natCast]
    exact_mod_cast (hle (k + 1) k.succ_pos).1 le_rfl

/-- A number near a float is of a magnitude that is read digit by digit. -/
theorem magnitude_of_near (hc : Canonical m q) (hm : m ≠ 0) (ha : a ≠ 0)
    (h : Near m q (a * 10 ^ e)) :
    -400 ≤ ((toString a).length : ℤ) + e ∧ ((toString a).length : ℤ) + e ≤ 400 := by
  obtain ⟨hlow, hhigh⟩ := digits_spec ha
  have hten : (10 : ℚ) ≠ 0 := by norm_num
  have height : (2 : ℚ) ^ (1200 : ℤ) ≤ 10 ^ (400 : ℤ) := by
    have hpow : ((2 : ℚ) ^ 3) ^ 400 ≤ 10 ^ 400 := by gcongr; norm_num
    rw [← pow_mul] at hpow
    exact hpow
  have hmono {i j : ℤ} (hij : i ≤ j) : (10 : ℚ) ^ i ≤ 10 ^ j :=
    zpow_le_zpow_right₀ (by norm_num) hij
  constructor <;> by_contra hlt
  · have hvalue : (a * 10 ^ e : ℚ) < 10 ^ (-400 : ℤ) := by
      calc (a * 10 ^ e : ℚ) < 10 ^ ((toString a).length : ℤ) * 10 ^ e := by gcongr
        _ = 10 ^ ((toString a).length + e : ℤ) := (zpow_add₀ hten _ _).symm
        _ ≤ 10 ^ (-400 : ℤ) := hmono (by omega)
    have hfloat : (10 : ℚ) ^ (-400 : ℤ) ≤ a * 10 ^ e := by
      calc (10 : ℚ) ^ (-400 : ℤ) ≤ 2 ^ (-1200 : ℤ) := by
            rw [zpow_neg, zpow_neg]
            exact inv_anti₀ (by positivity) height
        _ ≤ 2 ^ (q - 1) := zpow_le_zpow_right₀ one_le_two (by have := hc.least; omega)
        _ ≤ a * 10 ^ e := h.le hm
    exact absurd hfloat (not_le.2 hvalue)
  · have hvalue : (10 : ℚ) ^ (400 : ℤ) ≤ a * 10 ^ e := by
      calc (10 : ℚ) ^ (400 : ℤ) ≤ 10 ^ ((toString a).length - 1 + e : ℤ) := hmono (by omega)
        _ = 10 ^ ((toString a).length - 1 : ℤ) * 10 ^ e := zpow_add₀ hten _ _
        _ ≤ a * 10 ^ e := by gcongr
    have hfloat : (a * 10 ^ e : ℚ) < 10 ^ (400 : ℤ) := by
      calc (a * 10 ^ e : ℚ) < 2 ^ (q + 53) := h.lt hc
        _ ≤ 2 ^ (1200 : ℤ) := zpow_le_zpow_right₀ one_le_two (by have := hc.greatest; omega)
        _ ≤ 10 ^ (400 : ℤ) := height
    exact absurd hfloat (not_lt.2 hvalue)

/-- Digits near a float are read as that float. -/
theorem ofDecimal_of_near (hc : Canonical m q) (hm : m ≠ 0) (h : Near m q (a * 10 ^ e))
    (negative : Bool) : ofDecimal negative a e = ofParts negative (bitsOf m q) := by
  have ha : a ≠ 0 := by
    rintro rfl
    have hle := h.le hm
    rw [Nat.cast_zero, zero_mul] at hle
    exact absurd hle (not_le.2 (by positivity))
  obtain ⟨hleast, hgreatest⟩ := magnitude_of_near hc hm ha h
  rw [ten_zpow, ← mul_div_assoc, ← Nat.cast_mul] at h
  rw [ofDecimal]
  simp only [Int.ofNat_eq_natCast]
  rw [if_neg (not_or.2 ⟨ha, not_lt.2 hleast⟩), if_neg (not_lt.2 hgreatest)]
  exact congrArg _ (nearestBits_eq hc (Nat.pow_pos (by decide)) hm h)

theorem ofDecimal_zero (negative : Bool) (e : ℤ) : ofDecimal negative 0 e = ofParts negative 0 :=
  congrArg (ofParts negative) (if_pos (.inl rfl))

end Reading

end BuildPipeline.Number
