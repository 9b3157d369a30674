import BuildPipeline.Proofs.Number.ShortestDigits

/-!
Products of floats. The product of two normal floats is the float nearest to the product of their
values, as long as that is in the range of normal floats.
-/

namespace BuildPipeline.Number

open Float.Model UnpackedFloat

section Parts

variable {x : Float} {negative : Bool} {m : ℕ} {q : ℤ} {bits : ℕ}

theorem toNat_toBits_ofParts (h : bits < infiniteBits) :
    (ofParts negative bits).toBits.toNat = (if negative then 2 ^ 63 else 0) + bits := by
  simp only [infiniteBits, Nat.pow_eq] at h
  obtain ⟨word, hword⟩ : ∃ word, word = (if negative then 2 ^ 63 else 0) + bits := ⟨_, rfl⟩
  have hsize : word < 2 ^ 64 := by
    rw [hword]
    split <;> omega
  have hexponent : word / 2 ^ 52 % 2 ^ 11 ≠ 2047 := by
    rw [hword]
    split <;> omega
  let b : BitVec Format.binary64.numBits := (UInt64.ofNat word).toBitVec
  have hb : b.toNat = word := Nat.mod_eq_of_lt hsize
  have hnumber : isNaNBits b = false := by
    rw [isNaNBits, decide_eq_false_iff_not]
    rintro ⟨hlast, -⟩
    have hlast := (toNat_unpackExponent b).symm.trans (congrArg BitVec.toNat hlast)
    rw [hb] at hlast
    exact hexponent hlast
  have hpack : (unpack Format.binary64 b).pack Format.binary64 = b := by
    rw [pack_unpack, hnumber]
    rfl
  have hbits : (Float.ofBits (UInt64.ofNat word)).toBits.toBitVec = b := hpack
  rw [← hword, ← hb, ← hbits, ofParts, Nat.pow_eq, ← hword]
  rfl

theorem signBits_eq (negative : Bool) :
    (if negative then 2 ^ 63 else 0) = negative.toNat * 2 ^ 63 := by
  cases negative <;> rfl

theorem decode_of_toNat (hc : Canonical m q)
    (h : x.toBits.toNat = (if negative then 2 ^ 63 else 0) + bitsOf m q) :
    decode x = .finite negative m q := by
  obtain ⟨hm, hleast, hgreatest, hleading⟩ := hc
  obtain ⟨k, rfl⟩ : ∃ k : ℕ, q = k - 1074 := ⟨(q + 1074).toNat, by omega⟩
  rw [signBits_eq, bitsOf, sub_add_cancel, Int.toNat_natCast] at h
  have hbit := negative.toNat_lt
  have hnegative : (negative.toNat % 2 == 1) = negative := by cases negative <;> rfl
  have hside : x.toBits.toNat / 2 ^ 63 = negative.toNat := by omega
  simp only [decode, Nat.pow_eq, Int.ofNat_eq_natCast, hside, hnegative]
  by_cases hnormal : 2 ^ 52 ≤ m
  · have hexponent : x.toBits.toNat / 2 ^ 52 % 2 ^ 11 = k + 1 := by omega
    have hfraction : 2 ^ 52 + x.toBits.toNat % 2 ^ 52 = m := by omega
    rw [hexponent, hfraction, if_neg (by omega), if_neg (by omega)]
    congr 1
    omega
  · obtain rfl : k = 0 := by omega
    have hexponent : x.toBits.toNat / 2 ^ 52 % 2 ^ 11 = 0 := by omega
    have hfraction : x.toBits.toNat % 2 ^ 52 = m := by omega
    rw [hexponent, hfraction, if_neg (by omega), if_pos rfl]
    rfl

theorem decode_ofParts (hc : Canonical m q) (negative : Bool) :
    decode (ofParts negative (bitsOf m q)) = .finite negative m q :=
  decode_of_toNat hc (toNat_toBits_ofParts (bitsOf_lt hc))

/-- The value of a finite float. -/
def value (x : Float) : ℚ :=
  match decode x with
  | .finite negative m q => if negative then -(m * 2 ^ q) else m * 2 ^ q
  | _ => 0

theorem value_ofParts (hc : Canonical m q) : value (ofParts false (bitsOf m q)) = m * 2 ^ q := by
  rw [value, decode_ofParts hc]
  rfl

/-- A float that is nearest to a number. -/
def IsNearest (x : Float) (v : ℚ) : Prop :=
  ∃ m q, Canonical m q ∧ Near m q v ∧ x = ofParts false (bitsOf m q)

def signOf (negative : Bool) : Sign := if negative then .negative else .positive

theorem toNat_unpackSign (b : BitVec Format.binary64.numBits) :
    (unpackSign b).toNat = b.toNat / 2 ^ 63 % 2 ^ 1 := by
  rw [unpackSign_def, BitVec.extractLsb'_toNat, Nat.shiftRight_eq_div_pow]
  rfl

theorem toNat_one_append {w : ℕ} (v : BitVec w) : (1#1 ++ v).toNat = 2 ^ w + v.toNat := by
  rw [BitVec.toNat_append, ← Nat.shiftLeft_add_eq_or_of_lt v.isLt]
  simp [Nat.shiftLeft_eq]

theorem finite_congr {s s' : Sign} {m' : ℕ} {q' : ℤ} {hm : 0 < m} (hs : s = s') (h : m = m')
    (hq : q = q') : UnpackedFloat.finite s m q hm = .finite s' m' q' (h ▸ hm) := by
  subst hs h hq
  rfl

/-- The fields of a normal word are those of an unpacked float. -/
theorem unpack_of_fields {b : BitVec Format.binary64.numBits} {k : ℕ} (hm : 0 < m) (hk : k < 2046)
    (hsign : (unpackSign b).toNat = negative.toNat) (hexponent : (unpackExponent b).toNat = k + 1)
    (hfraction : 2 ^ 52 + (unpackMantissa b).toNat = m) :
    UnpackedFloat.unpack Format.binary64 b = .finite (signOf negative) m (k - 1074) hm := by
  have hlast : unpackExponent b ≠ -1#_ := fun h => by
    have h := hexponent.symm.trans (congrArg BitVec.toNat h)
    change k + 1 = 2047 at h
    omega
  have hfirst : unpackExponent b ≠ 0#_ := fun h => by
    have h := hexponent.symm.trans (congrArg BitVec.toNat h)
    change k + 1 = 0 at h
    omega
  have hside : unpackSign b = (signOf negative).toBitVec := by
    refine BitVec.eq_of_toNat_eq (hsign.trans ?_)
    cases negative <;> rfl
  have happend : (1#1 ++ unpackMantissa b).toNat = 2 ^ 52 + (unpackMantissa b).toNat :=
    toNat_one_append _
  rw [UnpackedFloat.unpack]
  simp only [hlast, hfirst, if_neg, not_false_eq_true]
  refine finite_congr ?_ (happend.trans hfraction) ?_
  · rw [hside, Sign.ofBitVec_toBitVec]
  · rw [hexponent]
    change ((k + 1 : ℕ) : ℤ) - (1023 + 52) = k - 1074
    omega

/-- A normal float is unpacked into its parts. -/
theorem unpack_ofParts (h : Normal m q) (negative : Bool) :
    (ofParts negative (bitsOf m q)).toModel.unpack = .finite (signOf negative) m q h.pos := by
  have hword : (ofParts negative (bitsOf m q)).toBits.toNat
      = (if negative then 2 ^ 63 else 0) + bitsOf m q := toNat_toBits_ofParts (bitsOf_lt h.canonical)
  change UnpackedFloat.unpack Format.binary64 (ofParts negative _).toBits.toBitVec = _
  generalize (ofParts negative (bitsOf m q)).toBits = word at hword ⊢
  have hpos := h.pos
  obtain ⟨hlt, hm, hleast, hgreatest⟩ := h
  obtain ⟨k, rfl⟩ : ∃ k : ℕ, q = k - 1074 := ⟨(q + 1074).toNat, by omega⟩
  rw [signBits_eq, bitsOf, sub_add_cancel, Int.toNat_natCast] at hword
  have hbit := negative.toNat_lt
  obtain ⟨b, hb⟩ : ∃ b : BitVec Format.binary64.numBits, b = word.toBitVec := ⟨_, rfl⟩
  have hnat : b.toNat = negative.toNat * 2 ^ 63 + (k * 2 ^ 52 + m) := by rw [hb]; exact hword
  rw [← hb]
  refine unpack_of_fields hpos (by omega) ?_ ?_ ?_
  · rw [toNat_unpackSign, hnat]
    omega
  · rw [toNat_unpackExponent, hnat]
    omega
  · rw [toNat_unpackMantissa, hnat]
    omega

end Parts

section Rounding

/-- Shifting keeps the next bit, and whether there is any bit after it. -/
theorem shiftRight_succ (n s : ℕ) : (⟨n, false, false⟩ : ExtendedMantissa) >>> (s + 1)
    = ⟨n / 2 ^ (s + 1), n / 2 ^ s % 2 != 0, n % 2 ^ s != 0⟩ := by
  induction s with
  | zero => simp [HShiftRight.hShiftRight, Nat.repeat, ExtendedMantissa.shiftRightOne, Nat.mod_one]
  | succ s ih =>
    change ExtendedMantissa.shiftRightOne ((⟨n, false, false⟩ : ExtendedMantissa) >>> (s + 1)) = _
    rw [ih, ExtendedMantissa.shiftRightOne]
    congr 1
    · rw [Nat.div_div_eq_div_mul, ← pow_succ]
    · rw [Nat.mod_pow_succ, Bool.eq_iff_iff]
      simp
      tauto

/-- The bits that are shifted out say how to round. -/
theorem roundedMantissa_shiftRight (n s : ℕ) :
    ((⟨n, false, false⟩ : ExtendedMantissa) >>> (s + 1)).roundedMantissa
      = roundHalfEven n (2 ^ (s + 1)) := by
  have hrest : n % 2 ^ (s + 1) = n % 2 ^ s + 2 ^ s * (n / 2 ^ s % 2) := Nat.mod_pow_succ
  have hlow := Nat.mod_lt n (Nat.two_pow_pos s)
  have hdouble : 2 ^ (s + 1) = 2 * 2 ^ s := by ring
  rw [shiftRight_succ, roundHalfEven, ExtendedMantissa.roundedMantissa, hrest, hdouble]
  generalize n / (2 * 2 ^ s) = t
  generalize 2 ^ s = d at hlow
  rcases Nat.mod_two_eq_zero_or_one (n / d) with hbit | hbit <;>
    rcases (n % d).eq_zero_or_pos with hzero | hpos
  · rw [hbit, hzero, if_pos (by omega)]
    rfl
  · have haccuracy : (⟨t, 0 != 0, n % d != 0⟩ : ExtendedMantissa).accuracy = .inexact .lt := by
      rw [bne_iff_ne.2 hpos.ne']
      rfl
    rw [hbit, haccuracy, if_pos (by omega)]
    rfl
  · rw [hbit, hzero, if_neg (by omega), if_neg (by omega)]
    change t + t % 2 = _
    split_ifs <;> omega
  · have haccuracy : (⟨t, 1 != 0, n % d != 0⟩ : ExtendedMantissa).accuracy = .inexact .gt := by
      rw [bne_iff_ne.2 hpos.ne']
      rfl
    rw [hbit, haccuracy, if_neg (by omega), if_pos (by omega)]
    rfl

end Rounding

section Products

variable {m n a : ℕ} {q e : ℤ} {s : Sign}

/-- The exponent with which a magnitude has 53 digits, if it is not below the least one. -/
theorem targetExponent_eq (m : ℕ) (q : ℤ) :
    Format.binary64.targetExponent (totalExponent m q) = max (m.log2 + q - 52) (-1074) := by
  change max ((m.log2 : ℤ) + 1 + q - 53) (-1074) = _
  congr 1
  ring

/-- A significand of at most 53 digits is not shifted. -/
theorem shiftToTargetExponent_of_lt (hm : m < 2 ^ 53) (hq : -1074 ≤ q) :
    shiftToTargetExponent Format.binary64 m q .exact = (⟨m, false, false⟩, q) := by
  have hlog : m.log2 ≤ 52 := by
    rcases m.eq_zero_or_pos with rfl | hpos
    · decide
    · exact Nat.lt_succ_iff.1 ((Nat.log2_lt hpos.ne').2 hm)
  have hshift : (Format.binary64.targetExponent (totalExponent m q) - q).toNat = 0 := by
    rw [targetExponent_eq]
    omega
  simp [shiftToTargetExponent, shiftToExponent, hshift, HShiftRight.hShiftRight,
    Nat.repeat, ExtendedMantissa.ofMantissaAndAccuracy]

/-- A significand that is rounded up to one digit more is shifted by that digit. -/
theorem shiftToTargetExponent_carry (hq : -1074 ≤ q) (h : Normal (carry a q).1 (carry a q).2) :
    shiftToTargetExponent Format.binary64 a q .exact
      = (⟨(carry a q).1, false, false⟩, (carry a q).2) := by
  rw [carry] at h ⊢
  split_ifs at h ⊢ with hcarry
  · have htarget : Format.binary64.targetExponent (totalExponent (2 ^ 53) q) = q + 1 := by
      rw [targetExponent_eq, Nat.log2_two_pow]
      omega
    rw [hcarry, shiftToTargetExponent]
    simp only [htarget]
    simp [shiftToExponent, HShiftRight.hShiftRight, Nat.repeat,
      ExtendedMantissa.ofMantissaAndAccuracy, ExtendedMantissa.shiftRightOne]
  · exact shiftToTargetExponent_of_lt h.significand hq

/-- A significand of more than 53 digits loses the last of them. -/
theorem shiftToTargetExponent_of_log2 {k : ℕ} (hm : m.log2 = k + 53) (hq : -1075 ≤ q + k) :
    shiftToTargetExponent Format.binary64 m q .exact
      = ((⟨m, false, false⟩ : ExtendedMantissa) >>> (k + 1), q + (k + 1 : ℕ)) := by
  have htarget : Format.binary64.targetExponent (totalExponent m q) = q + (k + 1 : ℕ) := by
    rw [targetExponent_eq, hm]
    omega
  have hshift : (q + (k + 1 : ℕ) - q).toNat = k + 1 := by omega
  rw [shiftToTargetExponent]
  simp only [htarget]
  rw [shiftToExponent]
  simp only [hshift]
  rfl

/-- A magnitude of more than 53 digits becomes the nearest float. -/
theorem roundWithAccuracy_of_log2 {k : ℕ} (hm : m.log2 = k + 53) (hleast : -1075 ≤ q + k)
    (hgreatest : q + k ≤ 969) : ∃ m' q', ∃ h : Normal m' q', Near m' q' (m * 2 ^ q)
      ∧ roundWithAccuracy Format.binary64 s m q .exact = .finite s m' q' h.pos := by
  obtain ⟨d, hd⟩ : ∃ d, d = q + (k + 1 : ℕ) := ⟨_, rfl⟩
  have hratio : (m * 2 ^ q : ℚ) / 2 ^ d = m / (2 ^ (k + 1) : ℕ) := by
    rw [hd, two_zpow_add, mul_div_mul_right _ _ (by positivity), Nat.cast_pow, Nat.cast_two]
  have hround := roundsTo_roundHalfEven (n := m) (Nat.two_pow_pos (k + 1))
  have hpos : m ≠ 0 := by
    rintro rfl
    simp at hm
  obtain ⟨hlow, hhigh⟩ := (Nat.log2_eq_iff hpos).1 hm
  have hlowest : (2 : ℚ) ^ 52 ≤ m / (2 ^ (k + 1) : ℕ) := by
    rw [le_div_iff₀ (by positivity)]
    exact_mod_cast (by ring : 2 ^ 52 * 2 ^ (k + 1) = 2 ^ (k + 53)) ▸ hlow
  have hhighest : (m / (2 ^ (k + 1) : ℕ) : ℚ) < 2 ^ 53 := by
    rw [div_lt_iff₀ (by positivity)]
    exact_mod_cast (by ring : 2 ^ (k + 53 + 1) = 2 ^ 53 * 2 ^ (k + 1)) ▸ hhigh
  rw [← hratio] at hround hlowest hhighest
  obtain ⟨hnormal, hnear⟩ := near_carry hround hlowest hhighest (by omega) (by omega)
  refine ⟨_, _, hnormal, hnear, ?_⟩
  rw [roundWithAccuracy]
  simp only [shiftToTargetExponent_of_log2 hm hleast, roundedMantissa_shiftRight, ← hd]
  simp only [shiftToTargetExponent_carry (show -1074 ≤ d by omega) hnormal, hnormal.pos.ne',
    dif_neg, not_false_eq_true]

theorem ofModel_pack (h : Normal m q) (negative : Bool) :
    Float.ofModel (Float.Model.pack (.finite (signOf negative) m q h.pos))
      = ofParts negative (bitsOf m q) := by
  rw [← unpack_ofParts h]
  exact Float.ofBits_toBits _

theorem signOf_mul (b c : Bool) : signOf b * signOf c = signOf (b ^^ c) := by
  cases b <;> cases c <;> rfl

/-- The product of two normal floats is the float nearest to the product of their values. -/
theorem ofParts_mul (hm : Normal m q) (hn : Normal n e)
    (hleast : -1126 ≤ q + e) (hgreatest : q + e ≤ 917) (b c : Bool) :
    ∃ m' q', Normal m' q' ∧ Near m' q' (m * 2 ^ q * (n * 2 ^ e))
      ∧ ofParts b (bitsOf m q) * ofParts c (bitsOf n e) = ofParts (b ^^ c) (bitsOf m' q') := by
  have hpos : m * n ≠ 0 := (Nat.mul_pos hm.pos hn.pos).ne'
  obtain ⟨k, hlog, hle⟩ : ∃ k : ℕ, (m * n).log2 = k + 53 ∧ (51 ≤ k ∧ k ≤ 52) := by
    have hlow := Nat.mul_le_mul hm.leading hn.leading
    have hhigh := Nat.mul_lt_mul'' hm.significand hn.significand
    rw [← pow_add] at hlow hhigh
    have hlow := (Nat.le_log2 hpos).2 hlow
    have hhigh := (Nat.log2_lt hpos).2 hhigh
    exact ⟨(m * n).log2 - 53, by omega, by omega, by omega⟩
  obtain ⟨m', q', hnormal, hnear, hround⟩ := roundWithAccuracy_of_log2 (s := signOf (b ^^ c))
    (q := q + e) hlog (by omega) (by omega)
  refine ⟨m', q', hnormal, ?_, ?_⟩
  · have hvalue : (m * 2 ^ q * (n * 2 ^ e) : ℚ) = (m * n : ℕ) * 2 ^ (q + e) := by
      rw [zpow_add₀ two_ne_zero]
      push_cast
      ring
    rw [hvalue]
    exact hnear
  · rw [← ofModel_pack hnormal, ← hround, ← signOf_mul]
    change Float.ofModel (Float.Model.pack (UnpackedFloat.mul _ _ _)) = _
    rw [unpack_ofParts hm, unpack_ofParts hn]
    rfl

end Products

end BuildPipeline.Number
