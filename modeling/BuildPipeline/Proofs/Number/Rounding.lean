import BuildPipeline.Proofs.Number.FloatBits
import BuildPipeline.Number.Shortest

/-!
The float nearest to a ratio. What lies around a finite float, up to the middle between it and its
neighbours, is rounded to it.
-/

namespace BuildPipeline.Number

/-- A whole number is rounded to from up to a half away, and from a half away if it is even. -/
structure RoundsTo (m : ℕ) (v : ℚ) : Prop where
  lower : (m : ℚ) - 1 / 2 ≤ v
  upper : v ≤ m + 1 / 2
  tie : v = m - 1 / 2 ∨ v = m + 1 / 2 → m % 2 = 0

theorem roundHalfEven_eq {n d m : ℕ} (hd : 0 < d) (h : RoundsTo m (n / d)) :
    roundHalfEven n d = m := by
  have hdq : (0 : ℚ) < d := by exact_mod_cast hd
  have hlower : 2 * m * d ≤ 2 * n + d := by
    have h := h.lower
    rw [le_div_iff₀ hdq] at h
    exact_mod_cast (by linarith : (2 * m * d : ℚ) ≤ 2 * n + d)
  have hupper : 2 * n ≤ 2 * m * d + d := by
    have h := h.upper
    rw [div_le_iff₀ hdq] at h
    exact_mod_cast (by linarith : (2 * n : ℚ) ≤ 2 * m * d + d)
  have htie : 2 * n + d = 2 * m * d ∨ 2 * n = 2 * m * d + d → m % 2 = 0 := by
    intro heq
    refine h.tie (heq.imp (fun heq => ?_) fun heq => ?_)
    · rw [div_eq_iff hdq.ne']
      have heq : (2 * n + d : ℚ) = 2 * m * d := by exact_mod_cast heq
      linarith
    · rw [div_eq_iff hdq.ne']
      have heq : (2 * n : ℚ) = 2 * m * d + d := by exact_mod_cast heq
      linarith
  obtain ⟨t, ht⟩ : ∃ t, t = n / d := ⟨_, rfl⟩
  have hn : d * t + n % d = n := ht ▸ Nat.div_add_mod n d
  have hrest := Nat.mod_lt n hd
  have hcases : m = t ∨ m = t + 1 := by
    have hle : t ≤ m := Nat.lt_succ_iff.1 (by rw [ht, Nat.div_lt_iff_lt_mul hd]; nlinarith)
    have hge : m ≤ t + 1 := by
      by_contra hlt
      have hmul := Nat.mul_le_mul_left d (Nat.lt_of_not_le hlt)
      nlinarith
    omega
  rw [roundHalfEven, ← ht]
  rcases hcases with rfl | rfl
  · have hmul : 2 * m * d = 2 * (d * m) := by ring
    rw [hmul] at hupper htie
    split_ifs with hbelow habove heven
    · rfl
    · omega
    · rfl
    · omega
  · have hmul : 2 * (t + 1) * d = 2 * (d * t) + 2 * d := by ring
    rw [hmul] at hlower htie
    split_ifs with hbelow habove heven
    · omega
    · rfl
    · omega
    · rfl

theorem roundsTo_roundHalfEven {n d : ℕ} (hd : 0 < d) : RoundsTo (roundHalfEven n d) (n / d) := by
  have hdq : (0 : ℚ) < d := by exact_mod_cast hd
  obtain ⟨t, ht⟩ : ∃ t, t = n / d := ⟨_, rfl⟩
  obtain ⟨r, hr⟩ : ∃ r, r = n % d := ⟨_, rfl⟩
  have hrest : r < d := hr ▸ Nat.mod_lt n hd
  have hn : (n / d : ℚ) = t + r / d := by
    have hn : (d * t + r : ℚ) = n := by exact_mod_cast ht ▸ hr ▸ Nat.div_add_mod n d
    rw [← hn]
    field_simp
  have hlow : 0 ≤ (r / d : ℚ) := by positivity
  have hhigh : (r / d : ℚ) < 1 := (div_lt_one hdq).2 (by exact_mod_cast hrest)
  have hbelow : (2 * r < d) ↔ (r / d : ℚ) < 1 / 2 := by
    rw [div_lt_div_iff₀ hdq two_pos, one_mul, mul_comm]
    exact_mod_cast Iff.rfl
  have habove : (d < 2 * r) ↔ 1 / 2 < (r / d : ℚ) := by
    rw [div_lt_div_iff₀ two_pos hdq, one_mul, mul_comm (r : ℚ)]
    exact_mod_cast Iff.rfl
  rw [roundHalfEven, ← ht, ← hr, hn]
  simp only [hbelow, habove]
  split_ifs with h1 h2 h3
  · exact ⟨by linarith, by linarith, by rintro (h | h) <;> linarith⟩
  · exact ⟨by push_cast; linarith, by push_cast; linarith,
      by push_cast; rintro (h | h) <;> linarith⟩
  · exact ⟨by linarith, by linarith, fun _ => h3⟩
  · exact ⟨by push_cast; linarith, by push_cast; linarith, fun _ => by omega⟩

/-- A power with a whole exponent as a ratio of powers. -/
theorem zpow_eq_div (b : ℕ) (hb : 0 < b) (q : ℤ) :
    (b : ℚ) ^ q = (b ^ q.toNat : ℕ) / (b ^ (-q).toNat : ℕ) := by
  have hb : (b : ℚ) ≠ 0 := by exact_mod_cast hb.ne'
  nth_rewrite 1 [← Int.toNat_sub_toNat_neg q]
  rw [zpow_sub₀ hb, zpow_natCast, zpow_natCast, Nat.cast_pow, Nat.cast_pow]

theorem two_zpow (q : ℤ) :
    (2 : ℚ) ^ q = (Nat.pow 2 q.toNat : ℕ) / (Nat.pow 2 (-q).toNat : ℕ) :=
  zpow_eq_div 2 (by decide) q

/-- The leading digit of a number stands at its place. -/
theorem binaryPlace_spec {n d : ℕ} (hn : 0 < n) (hd : 0 < d) :
    (2 : ℚ) ^ binaryPlace n d ≤ n / d ∧ (n / d : ℚ) < 2 ^ (binaryPlace n d + 1) := by
  have hdq : (0 : ℚ) < d := by exact_mod_cast hd
  have hlow (n : ℕ) (hn : 0 < n) : (2 : ℚ) ^ (n.log2 : ℤ) ≤ n := by
    exact_mod_cast Nat.log2_self_le hn.ne'
  have hhigh (n : ℕ) : (n : ℚ) < 2 ^ (n.log2 + 1 : ℤ) := by
    exact_mod_cast Nat.lt_log2_self
  -- The comparison says whether the ratio lies below the power of two with the estimated exponent.
  have hbelow (k : ℤ) : n * Nat.pow 2 (-k).toNat < d * Nat.pow 2 k.toNat ↔ (n / d : ℚ) < 2 ^ k := by
    have hpow : (0 : ℚ) < (Nat.pow 2 (-k).toNat : ℕ) := by exact_mod_cast Nat.two_pow_pos _
    rw [two_zpow, div_lt_div_iff₀ hdq hpow, mul_comm _ (d : ℚ)]
    exact_mod_cast Iff.rfl
  have hleast : (2 : ℚ) ^ (n.log2 - d.log2 - 1 : ℤ) ≤ n / d := by
    rw [le_div_iff₀ hdq]
    calc (2 : ℚ) ^ (n.log2 - d.log2 - 1 : ℤ) * d
        ≤ 2 ^ (n.log2 - d.log2 - 1 : ℤ) * 2 ^ (d.log2 + 1 : ℤ) := by gcongr; exact (hhigh d).le
      _ = 2 ^ (n.log2 : ℤ) := by rw [← zpow_add₀ two_ne_zero]; congr 1; ring
      _ ≤ n := hlow n hn
  have hgreatest : (n / d : ℚ) < 2 ^ (n.log2 - d.log2 + 1 : ℤ) := by
    rw [div_lt_iff₀ hdq]
    calc (n : ℚ) < 2 ^ (n.log2 + 1 : ℤ) := hhigh n
      _ = 2 ^ (n.log2 - d.log2 + 1 : ℤ) * 2 ^ (d.log2 : ℤ) := by
        rw [← zpow_add₀ two_ne_zero]; congr 1; ring
      _ ≤ 2 ^ (n.log2 - d.log2 + 1 : ℤ) * d := by gcongr; exact hlow d hd
  rw [binaryPlace]
  simp only [Int.ofNat_eq_natCast, hbelow]
  split_ifs with h
  · rw [sub_add_cancel]
    exact ⟨hleast, h⟩
  · exact ⟨not_lt.1 h, hgreatest⟩

/-- The end of what lies around a float on the side of zero, in units of its last place. -/
def lowEnd (m : ℕ) (q : ℤ) : ℚ := if narrowBelow m q then m - 1 / 4 else m - 1 / 2

/-- A number lies between the middles of a float and its neighbours, and on one of the middles only
if the significand is even. -/
structure Near (m : ℕ) (q : ℤ) (v : ℚ) : Prop where
  lower : lowEnd m q ≤ v / 2 ^ q
  upper : v / 2 ^ q ≤ m + 1 / 2
  tie : v / 2 ^ q = lowEnd m q ∨ v / 2 ^ q = m + 1 / 2 → m % 2 = 0

section Near

variable {m : ℕ} {q k : ℤ} {v : ℚ}

theorem narrowBelow_iff : narrowBelow m q ↔ m = 2 ^ 52 ∧ -1074 < q := by
  simp [narrowBelow]

theorem Near.roundsTo (h : Near m q v) : RoundsTo m (v / 2 ^ q) := by
  have hlower := h.lower
  have htie := h.tie
  rw [lowEnd] at hlower htie
  split_ifs at hlower htie with hnarrow
  · exact ⟨by linarith, h.upper, fun heq => (narrowBelow_iff.1 hnarrow).1 ▸ by decide⟩
  · exact ⟨hlower, h.upper, htie⟩

theorem Near.lt (hc : Canonical m q) (h : Near m q v) : v < 2 ^ (q + 53) := by
  have hq : (0 : ℚ) < 2 ^ q := by positivity
  have hm : (m : ℚ) + 1 ≤ 2 ^ 53 := by exact_mod_cast hc.significand
  have hupper := h.upper
  rw [div_le_iff₀ hq] at hupper
  calc v ≤ (m + 1 / 2) * 2 ^ q := hupper
    _ < 2 ^ (53 : ℤ) * 2 ^ q := by
      gcongr
      have hpow : (2 : ℚ) ^ (53 : ℤ) = 2 ^ 53 := by norm_cast
      rw [hpow]
      linarith
    _ = 2 ^ (q + 53) := by rw [← zpow_add₀ two_ne_zero, add_comm]

theorem two_zpow_add (q : ℤ) (n : ℕ) : (2 : ℚ) ^ (q + n) = 2 ^ n * 2 ^ q := by
  rw [zpow_add₀ two_ne_zero, zpow_natCast, mul_comm]

/-- Only a power of two is rounded to from a number with a lower leading digit. -/
theorem Near.of_lt (hq : -1074 < q) (hm : 2 ^ 52 ≤ m) (h : Near m q v) (hv : v < 2 ^ (q + 52)) :
    m = 2 ^ 52 ∧ 2 ^ (q + 51) ≤ v := by
  have hpow : (0 : ℚ) < 2 ^ q := by positivity
  have hhigh : v / 2 ^ q < 2 ^ 52 := by
    rw [div_lt_iff₀ hpow, ← two_zpow_add]
    exact hv
  have hlower := h.lower
  rw [lowEnd] at hlower
  split_ifs at hlower with hnarrow
  · have hm := (narrowBelow_iff.1 hnarrow).1
    refine ⟨hm, ?_⟩
    rw [show (51 : ℤ) = (51 : ℕ) from rfl, two_zpow_add, ← le_div_iff₀ hpow]
    rw [hm] at hlower
    norm_num at hlower ⊢
    linarith
  · have hlt : 2 ^ 52 < m := by
      refine lt_of_le_of_ne hm fun heq => hnarrow (narrowBelow_iff.2 ⟨heq.symm, hq⟩)
    have hlt : (2 : ℚ) ^ 52 + 1 ≤ m := by exact_mod_cast hlt
    linarith

/-- A number near a float has its leading digit where the float has it, or one place below if it is
less than a power of two. -/
theorem Near.place (hc : Canonical m q) (h : Near m q v) (hlow : 2 ^ k ≤ v)
    (hhigh : v < 2 ^ (k + 1)) :
    max (-1074) (k - 52) = q ∨ max (-1074) (k - 52) = q - 1 ∧ m = 2 ^ 52 ∧ v < 2 ^ (q + 52) := by
  have hbelow : k < q + 53 := (zpow_lt_zpow_iff_right₀ one_lt_two).1 (hlow.trans_lt (h.lt hc))
  have hleast := hc.least
  rcases hc.leading with hleading | rfl
  · rcases hleast.eq_or_lt with rfl | hleast
    · left
      omega
    · rcases lt_or_ge v (2 ^ (q + 52)) with hv | hv
      · obtain ⟨hm, habove⟩ := h.of_lt hleast hleading hv
        have habove := (zpow_lt_zpow_iff_right₀ one_lt_two).1 (habove.trans_lt hhigh)
        have hbelow := (zpow_lt_zpow_iff_right₀ one_lt_two).1 (hlow.trans_lt hv)
        exact .inr ⟨by omega, hm, hv⟩
      · have habove := (zpow_lt_zpow_iff_right₀ one_lt_two).1 (hv.trans_lt hhigh)
        left
        omega
  · left
    omega

/-- Just below a power of two a number is rounded up to it in units of the lower place. -/
theorem Near.roundsTo_double (h : Near (2 ^ 52) q v) (hq : -1074 < q) (hv : v < 2 ^ (q + 52)) :
    RoundsTo (2 ^ 53) (v / 2 ^ (q - 1)) := by
  have hpow : (0 : ℚ) < 2 ^ q := by positivity
  have hdouble : v / 2 ^ (q - 1) = 2 * (v / 2 ^ q) := by
    rw [zpow_sub_one₀ two_ne_zero]
    field_simp
  have hhigh : v / 2 ^ q < 2 ^ 52 := by
    rw [div_lt_iff₀ hpow, ← two_zpow_add]
    exact hv
  have hlower := h.lower
  rw [lowEnd, if_pos (narrowBelow_iff.2 ⟨rfl, hq⟩)] at hlower
  rw [hdouble]
  norm_num at hlower hhigh
  exact ⟨by norm_num; linarith, by norm_num; linarith, fun _ => by decide⟩

/-- A ratio in units of a binary place. -/
theorem scaled_eq (n d : ℕ) (q : ℤ) : ((n * Nat.pow 2 (-q).toNat : ℕ) : ℚ)
    / (d * Nat.pow 2 q.toNat : ℕ) = n / d / 2 ^ q := by
  rw [two_zpow, Nat.cast_mul, Nat.cast_mul, div_div_div_eq]

theorem bitsOf_lt (hc : Canonical m q) : bitsOf m q < infiniteBits := by
  obtain ⟨hm, hleast, hgreatest, -⟩ := hc
  rw [bitsOf, infiniteBits, Nat.pow_eq]
  omega

/-- What lies around a finite float has that float for the nearest one. -/
theorem nearestBits_eq {n d : ℕ} (hc : Canonical m q) (hd : 0 < d) (hm : m ≠ 0)
    (h : Near m q (n / d)) : nearestBits n d = bitsOf m q := by
  have hn : 0 < n := by
    refine Nat.pos_of_ne_zero fun hzero => ?_
    have hlower := h.roundsTo.lower
    have hone : (1 : ℚ) ≤ m := by exact_mod_cast Nat.one_le_iff_ne_zero.2 hm
    rw [hzero, Nat.cast_zero, zero_div, zero_div] at hlower
    linarith
  have hpow (q : ℤ) : 0 < d * Nat.pow 2 q.toNat := Nat.mul_pos hd (Nat.two_pow_pos _)
  obtain ⟨hlow, hhigh⟩ := binaryPlace_spec hn hd
  have hlt := bitsOf_lt hc
  rw [nearestBits]
  rcases h.place hc hlow hhigh with hplace | ⟨hplace, rfl, hv⟩
  · have hround := h.roundsTo
    rw [← scaled_eq] at hround
    simp only [hplace]
    rw [roundHalfEven_eq (hpow q) hround]
    exact min_eq_left hlt.le
  · have hround := h.roundsTo_double (by omega) hv
    rw [← scaled_eq] at hround
    simp only [hplace]
    -- The carry is into the exponent.
    have hcarry : (q - 1 + 1074).toNat * Nat.pow 2 52 + 2 ^ 53 = bitsOf (2 ^ 52) q := by
      rw [bitsOf, Nat.pow_eq]
      omega
    rw [roundHalfEven_eq (hpow (q - 1)) hround, hcarry]
    exact min_eq_left hlt.le

/-- The float nearest to a number is at most half of its last place away. -/
theorem Near.error_le (hc : Canonical m q) (h : Near m q v) (hv : v < 2 ^ (k + 53)) (hk : -1074 < k) :
    |m * 2 ^ q - v| ≤ 2 ^ (k - 1) := by
  have hpow : (0 : ℚ) < 2 ^ q := by positivity
  have hupper := (div_le_iff₀ hpow).1 h.upper
  rcases lt_or_ge k q with hq | hq
  · -- Only a power of two is rounded to from below the leading digit.
    obtain ⟨hm, hle⟩ := h.of_lt (by omega) (hc.leading.resolve_right (by omega))
      (hv.trans_le (zpow_le_zpow_right₀ one_le_two (by omega)))
    have hplace := (zpow_lt_zpow_iff_right₀ one_lt_two).1 (hle.trans_lt hv)
    obtain rfl : q = k + 1 := by omega
    have hlower := h.lower
    rw [lowEnd, if_pos (narrowBelow_iff.2 ⟨hm, by omega⟩), le_div_iff₀ hpow] at hlower
    have hfour : (2 : ℚ) ^ (k + 1) = 4 * 2 ^ (k - 1) := by
      rw [show k + 1 = k - 1 + (2 : ℕ) by ring, two_zpow_add]
      norm_num
    have hbelow : v < m * 2 ^ (k + 1) := by
      rw [hm, Nat.cast_pow, Nat.cast_two, ← two_zpow_add]
      refine hv.trans_le (zpow_le_zpow_right₀ one_le_two ?_)
      omega
    rw [hfour] at hlower hbelow ⊢
    rw [abs_of_pos (by linarith)]
    linarith
  · have hlower := (le_div_iff₀ hpow).1 h.roundsTo.lower
    have hhalf : (2 : ℚ) ^ q = 2 * 2 ^ (q - 1) := by
      rw [zpow_sub_one₀ two_ne_zero]
      ring
    have hmono : (2 : ℚ) ^ (q - 1) ≤ 2 ^ (k - 1) := zpow_le_zpow_right₀ one_le_two (by omega)
    rw [hhalf] at hlower hupper ⊢
    rw [abs_le]
    constructor <;> linarith

theorem two_mul_zpow_le {i j : ℤ} (h : i < j) : 2 * (2 : ℚ) ^ i ≤ 2 ^ j := by
  rw [mul_comm, ← zpow_add_one₀ two_ne_zero]
  exact zpow_le_zpow_right₀ one_le_two h

section Order

variable {n : ℕ} (hc : Canonical m q) (h : Near m q v)

include hc h

/-- Floats with a lower last place are below, and so is what is rounded to them. -/
theorem Near.below (hq : q < k) (hlow : 2 ^ 52 < n) :
    (m * 2 ^ q : ℚ) < n * 2 ^ k ∧ v < (n - 1 / 2) * 2 ^ k := by
  have hpow : (0 : ℚ) < 2 ^ q := by positivity
  have hpowk : (0 : ℚ) < 2 ^ k := by positivity
  have hplace := two_mul_zpow_le hq
  have hm : (m + 1 : ℚ) ≤ 2 ^ 53 := by exact_mod_cast hc.significand
  have hn : (2 ^ 52 + 1 : ℚ) ≤ n := by exact_mod_cast hlow
  constructor
  · calc (m * 2 ^ q : ℚ) < 2 ^ 53 * 2 ^ q := by gcongr; linarith
      _ = 2 ^ 52 * (2 * 2 ^ q) := by ring
      _ ≤ 2 ^ 52 * 2 ^ k := by gcongr
      _ ≤ n * 2 ^ k := by gcongr; linarith
  · calc v ≤ (m + 1 / 2) * 2 ^ q := (div_le_iff₀ hpow).1 h.upper
      _ ≤ 2 ^ 53 * 2 ^ q := by gcongr; linarith
      _ = 2 ^ 52 * (2 * 2 ^ q) := by ring
      _ ≤ 2 ^ 52 * 2 ^ k := by gcongr
      _ < (n - 1 / 2) * 2 ^ k := by gcongr; linarith

/-- Floats with a higher last place are above, and so is what is rounded to them. -/
theorem Near.above (hk : -1074 ≤ k) (hq : k < q) (hhigh : n ≤ 2 ^ 53) :
    (n * 2 ^ k : ℚ) ≤ m * 2 ^ q ∧ (n - 1 / 2) * 2 ^ k ≤ v := by
  have hpow : (0 : ℚ) < 2 ^ q := by positivity
  have hplace := two_mul_zpow_le hq
  have hleading : 2 ^ 52 ≤ m := hc.leading.resolve_right (by omega)
  have hm : (2 ^ 52 : ℚ) ≤ m := by exact_mod_cast hleading
  have hn : (n : ℚ) ≤ 2 ^ 53 := by exact_mod_cast hhigh
  have hlowest : (2 ^ 52 - 1 / 4 : ℚ) ≤ lowEnd m q := by
    rw [lowEnd]
    split_ifs with hnarrow
    · linarith
    · have hne : 2 ^ 52 ≠ m := fun hm => hnarrow (narrowBelow_iff.2 ⟨hm.symm, by omega⟩)
      have hgt : (2 ^ 52 + 1 : ℚ) ≤ m := by exact_mod_cast lt_of_le_of_ne hleading hne
      linarith
  constructor
  · calc (n * 2 ^ k : ℚ) ≤ 2 ^ 53 * 2 ^ k := by gcongr
      _ = 2 ^ 52 * (2 * 2 ^ k) := by ring
      _ ≤ 2 ^ 52 * 2 ^ q := by gcongr
      _ ≤ m * 2 ^ q := by gcongr
  · calc (n - 1 / 2 : ℚ) * 2 ^ k ≤ (2 ^ 53 - 1 / 2) * 2 ^ k := by gcongr
      _ = (2 ^ 52 - 1 / 4) * (2 * 2 ^ k) := by ring
      _ ≤ (2 ^ 52 - 1 / 4) * 2 ^ q := by gcongr
      _ ≤ lowEnd m q * 2 ^ q := by gcongr
      _ ≤ v := (le_div_iff₀ hpow).1 h.lower

/-- A number is rounded to at least an even float `n` exactly from the middle below `n` on. -/
theorem Near.le_iff (hk : -1074 ≤ k) (hlow : 2 ^ 52 < n) (hhigh : n ≤ 2 ^ 53)
    (heven : n % 2 = 0) : (n * 2 ^ k : ℚ) ≤ m * 2 ^ q ↔ (n - 1 / 2) * 2 ^ k ≤ v := by
  rcases lt_trichotomy q k with hq | rfl | hq
  · obtain ⟨hvalue, hv⟩ := h.below hc hq hlow
    exact iff_of_false (not_le.2 hvalue) (not_le.2 hv)
  · have hpow : (0 : ℚ) < 2 ^ q := by positivity
    rw [mul_le_mul_iff_left₀ hpow, ← le_div_iff₀ hpow, Nat.cast_le]
    constructor
    · intro hle
      have hnarrow : ¬narrowBelow m q := fun hnarrow => by
        have hm := (narrowBelow_iff.1 hnarrow).1
        omega
      have hlower := h.lower
      rw [lowEnd, if_neg hnarrow] at hlower
      have hle : (n : ℚ) ≤ m := by exact_mod_cast hle
      linarith
    · -- The middle below an even float belongs to it.
      intro hle
      by_contra! hlt
      have hupper := h.upper
      have hlt : (m + 1 : ℚ) ≤ n := by exact_mod_cast hlt
      have hge : (n : ℚ) ≤ m + 1 := by linarith
      have hn : n = m + 1 := by exact_mod_cast le_antisymm hge hlt
      have heven := h.tie (.inr (by linarith))
      omega
  · obtain ⟨hvalue, hv⟩ := h.above hc hk hq hhigh
    exact iff_of_true hvalue hv

end Order

end Near

section Carry

variable {a : ℕ} {q : ℤ} {v : ℚ}

/-- A significand that is rounded up to one digit more gives that digit to the exponent. -/
def carry (a : ℕ) (q : ℤ) : ℕ × ℤ := if a = 2 ^ 53 then (2 ^ 52, q + 1) else (a, q)

theorem RoundsTo.bounds (h : RoundsTo a v) {i j : ℕ} (hlow : i ≤ v) (hhigh : v ≤ j) :
    i ≤ a ∧ a ≤ j := by
  have hlower := h.lower
  have hupper := h.upper
  constructor <;> by_contra! hlt
  · have hlt : (a + 1 : ℚ) ≤ i := by exact_mod_cast hlt
    linarith
  · have hlt : (j + 1 : ℚ) ≤ a := by exact_mod_cast hlt
    linarith

/-- What is rounded to 53 digits, in units of the last of them, is the nearest float. -/
theorem near_carry (h : RoundsTo a (v / 2 ^ q)) (hlow : 2 ^ 52 ≤ v / 2 ^ q)
    (hhigh : v / 2 ^ q < 2 ^ 53) (hleast : -1074 ≤ q) (hgreatest : q ≤ 970) :
    Normal (carry a q).1 (carry a q).2 ∧ Near (carry a q).1 (carry a q).2 v := by
  obtain ⟨hleading, hle⟩ := h.bounds (i := 2 ^ 52) (j := 2 ^ 53) (by exact_mod_cast hlow)
    (by exact_mod_cast hhigh.le)
  have hlower := h.lower
  have hupper := h.upper
  rw [carry]
  split_ifs with hcarry <;> dsimp only
  · have hhalf : v / 2 ^ (q + 1) = v / 2 ^ q / 2 := by
      rw [zpow_add_one₀ two_ne_zero, div_div]
    rw [hcarry] at hlower
    norm_num at hlower hhigh
    refine ⟨⟨by decide, le_rfl, by omega, by omega⟩, ⟨?_, ?_, fun _ => by decide⟩⟩
    · rw [lowEnd, if_pos (narrowBelow_iff.2 ⟨rfl, by omega⟩), hhalf]
      norm_num
      linarith
    · rw [hhalf]
      norm_num
      linarith
  · refine ⟨⟨by omega, hleading, hleast, by omega⟩, ?_⟩
    by_cases hnarrow : narrowBelow a q
    · obtain ⟨ha, -⟩ := narrowBelow_iff.1 hnarrow
      refine ⟨?_, hupper, fun _ => by rw [ha]; decide⟩
      rw [lowEnd, if_pos hnarrow, ha]
      norm_num at hlow ⊢
      linarith
    · refine ⟨?_, hupper, ?_⟩ <;> rw [lowEnd, if_neg hnarrow]
      · exact hlower
      · exact h.tie

/-- A number in the range of normal floats lies near one of them. -/
theorem exists_near (hlow : 2 ^ (-1022 : ℤ) ≤ v) (hhigh : v < 2 ^ (1023 : ℤ)) :
    ∃ m q, Normal m q ∧ Near m q v := by
  have hv : 0 < v := lt_of_lt_of_le (by positivity) hlow
  obtain ⟨k, hk⟩ : ∃ k, k = Int.log 2 v := ⟨_, rfl⟩
  have hle : (2 : ℚ) ^ k ≤ v := hk ▸ Int.zpow_log_le_self (by decide) hv
  have hlt : v < (2 : ℚ) ^ (k + 1) := hk ▸ Int.lt_zpow_succ_log_self (by decide) v
  have hleast := (zpow_lt_zpow_iff_right₀ (one_lt_two (α := ℚ))).1 (hlow.trans_lt hlt)
  have hgreatest := (zpow_lt_zpow_iff_right₀ (one_lt_two (α := ℚ))).1 (hle.trans_lt hhigh)
  obtain ⟨u, hu⟩ : ∃ u, u = v / 2 ^ (k - 52) := ⟨_, rfl⟩
  have hupos : 0 ≤ u := hu ▸ by positivity
  have hround : RoundsTo (roundHalfEven u.num.toNat u.den) (v / 2 ^ (k - 52)) := by
    have hnum : ((u.num.toNat : ℕ) : ℚ) = u.num := by
      exact_mod_cast Int.toNat_of_nonneg (Rat.num_nonneg.2 hupos)
    have hratio : (u.num.toNat : ℚ) / u.den = v / 2 ^ (k - 52) := by
      rw [hnum, Rat.num_div_den, hu]
    rw [← hratio]
    exact roundsTo_roundHalfEven u.den_pos
  have hpow : (0 : ℚ) < 2 ^ (k - 52) := by positivity
  refine ⟨_, _, near_carry hround ?_ ?_ (by omega) (by omega)⟩
  · rw [le_div_iff₀ hpow, ← two_zpow_add]
    exact (zpow_le_zpow_right₀ one_le_two (by omega)).trans hle
  · rw [div_lt_iff₀ hpow, ← two_zpow_add]
    exact hlt.trans_le (zpow_le_zpow_right₀ one_le_two (by omega))

end Carry

section Whole

variable {m n : ℕ} {q : ℤ} {v : ℚ}

theorem le_wholePart_iff : n ≤ wholePart m q ↔ (n : ℚ) ≤ m * 2 ^ q := by
  have hpow : (0 : ℚ) < (Nat.pow 2 (-q).toNat : ℕ) := by exact_mod_cast Nat.two_pow_pos _
  have hle : n ≤ wholePart m q ↔ n * Nat.pow 2 (-q).toNat ≤ m * Nat.pow 2 q.toNat :=
    Nat.le_div_iff_mul_le (Nat.two_pow_pos _)
  rw [hle, two_zpow, ← mul_div_assoc, le_div_iff₀ hpow]
  exact_mod_cast Iff.rfl

/-- Half the way from a whole number to the float below it. -/
def halfGap (n : ℕ) : ℚ := 2 ^ ((Nat.clog 2 n : ℤ) - 54)

theorem halfGap_nonneg (n : ℕ) : 0 ≤ halfGap n := by
  rw [halfGap]
  positivity

theorem halfGap_le {c : ℕ} (h : n ≤ 2 ^ c) : halfGap n ≤ 2 ^ (c - 54 : ℤ) := by
  have hclog : Nat.clog 2 n ≤ c := Nat.clog_le_of_le_pow h
  exact zpow_le_zpow_right₀ one_le_two (by omega)

theorem two_pow_clog_lt (hpos : 0 < n) : 2 ^ Nat.clog 2 n < n * 2 := by
  rcases eq_or_lt_of_le (Nat.succ_le_of_lt hpos) with rfl | hone
  · decide
  · have hpred := Nat.pow_pred_clog_lt_self one_lt_two hone
    have hclog := Nat.clog_pos one_lt_two hone
    have hsucc : 2 ^ Nat.clog 2 n = 2 ^ (Nat.clog 2 n).pred * 2 := by
      rw [← pow_succ, Nat.pred_eq_sub_one, Nat.sub_add_cancel hclog]
    omega

/-- A whole number below half of the greatest significand is even in units of the last place of the
floats below it. -/
theorem exists_even (hpos : 0 < n) (hn : n < 2 ^ 52) : ∃ (a : ℕ) (k : ℤ), -1074 ≤ k
    ∧ 2 ^ 52 < a ∧ a ≤ 2 ^ 53 ∧ a % 2 = 0 ∧ (n : ℚ) = a * 2 ^ k ∧ halfGap n = 1 / 2 * 2 ^ k := by
  have hhigh : n ≤ 2 ^ Nat.clog 2 n := Nat.le_pow_clog one_lt_two n
  have hlow := two_pow_clog_lt hpos
  have hplace : Nat.clog 2 n ≤ 52 := Nat.clog_le_of_le_pow hn.le
  rw [halfGap]
  generalize Nat.clog 2 n = c at hhigh hlow hplace
  obtain ⟨s, hs⟩ : ∃ s, s + 1 + c = 53 := ⟨52 - c, by omega⟩
  have hunit : 2 ^ (s + 1) * 2 ^ c = 2 ^ 53 := by rw [← pow_add, hs]
  have hspos := Nat.two_pow_pos (s + 1)
  refine ⟨n * 2 ^ (s + 1), c - 53, by omega, ?_, ?_, ?_, ?_, ?_⟩
  · have hscaled := Nat.mul_lt_mul_of_pos_left hlow hspos
    rw [hunit] at hscaled
    linarith
  · have hscaled := Nat.mul_le_mul_left (2 ^ (s + 1)) hhigh
    rw [hunit] at hscaled
    linarith
  · rw [pow_succ, ← mul_assoc, Nat.mul_mod_left]
  · rw [Nat.cast_mul, Nat.cast_pow, Nat.cast_two, mul_assoc, ← two_zpow_add,
      show (c - 53 + (s + 1 : ℕ) : ℤ) = 0 by omega, zpow_zero, mul_one]
  · rw [show (c - 54 : ℤ) = c - 53 - 1 by ring, zpow_sub_one₀ two_ne_zero]
    ring

/-- A number is rounded to a float of at least `n` exactly from the middle below `n` on. -/
theorem Near.le_wholePart_iff (hc : Canonical m q) (h : Near m q v) (hv : 0 ≤ v)
    (hn : n < 2 ^ 52) : n ≤ wholePart m q ↔ n - halfGap n ≤ v := by
  rcases n.eq_zero_or_pos with rfl | hpos
  · refine iff_of_true (Nat.zero_le _) ?_
    have hgap := halfGap_nonneg 0
    push_cast
    linarith
  · obtain ⟨a, k, hk, hlow, hhigh, heven, hvalue, hgap⟩ := exists_even hpos hn
    rw [Number.le_wholePart_iff, hgap, hvalue, ← sub_mul]
    exact h.le_iff hc hk hlow hhigh heven

end Whole

end BuildPipeline.Number
