import BuildPipeline.Number.Binary64
import Mathlib

/-!
Floats and their bits: what a float is decoded to tells the bits of it, and so the float.
-/

namespace BuildPipeline.Number

open Float.Model UnpackedFloat

/-- The parts of a finite magnitude: the significand has 53 digits, unless the exponent is the least
one. -/
structure Canonical (m : ℕ) (q : ℤ) : Prop where
  significand : m < 2 ^ 53
  least : -1074 ≤ q
  greatest : q ≤ 971
  leading : 2 ^ 52 ≤ m ∨ q = -1074

/-- The parts of a normal magnitude: the significand has 53 digits. -/
structure Normal (m : ℕ) (q : ℤ) : Prop where
  significand : m < 2 ^ 53
  leading : 2 ^ 52 ≤ m
  least : -1074 ≤ q
  greatest : q ≤ 971

theorem Normal.canonical {m : ℕ} {q : ℤ} (h : Normal m q) : Canonical m q :=
  ⟨h.significand, h.least, h.greatest, .inl h.leading⟩

theorem Normal.pos {m : ℕ} {q : ℤ} (h : Normal m q) : 0 < m :=
  (Nat.two_pow_pos 52).trans_le h.leading

/-- The bits of a finite magnitude. -/
def bitsOf (m : ℕ) (q : ℤ) : ℕ := (q + 1074).toNat * 2 ^ 52 + m

/-- The leading digit of a normal significand is not written, and counts for the exponent. -/
theorem bitsOf_normal {e : ℕ} (he : e ≠ 0) (f : ℕ) :
    bitsOf (2 ^ 52 + f) (e - 1075) = e * 2 ^ 52 + f := by
  rw [bitsOf]
  omega

section Decoding

variable {x : Float} {negative : Bool} {m : ℕ} {q : ℤ}

theorem eq_ofParts {bits : ℕ} (h : x.toBits.toNat = (if negative then 2 ^ 63 else 0) + bits) :
    x = ofParts negative bits := by
  have hword : UInt64.ofNat ((if negative then Nat.pow 2 63 else 0) + bits) = x.toBits := by
    rw [← UInt64.ofNat_toNat (x := x.toBits), h]
    rfl
  rw [ofParts, hword, Float.ofBits_toBits]

/-- A word is a sign, an exponent and a fraction. -/
theorem word_eq {b : ℕ} (h : b < 2 ^ 64) : b = (if b / 2 ^ 63 % 2 == 1 then 2 ^ 63 else 0)
    + (b / 2 ^ 52 % 2 ^ 11 * 2 ^ 52 + b % 2 ^ 52) := by
  rcases Nat.mod_two_eq_zero_or_one (b / 2 ^ 63) with hsign | hsign <;> rw [hsign]
  · simp only [Nat.reduceBEq, Bool.false_eq_true, if_false]
    omega
  · simp only [BEq.rfl, if_true]
    omega

/-- A finite float has the parts that it is decoded to. -/
theorem of_decode_finite (h : decode x = .finite negative m q) :
    Canonical m q ∧ x = ofParts negative (bitsOf m q) := by
  have hword := word_eq x.toBits.toNat_lt
  have hfraction := Nat.mod_lt x.toBits.toNat (show 2 ^ 52 > 0 by decide)
  have hexponent := Nat.mod_lt (x.toBits.toNat / 2 ^ 52) (show 2 ^ 11 > 0 by decide)
  simp only [decode, Nat.pow_eq, Int.ofNat_eq_natCast] at h
  split_ifs at h with hlast hzero hfirst
  · rw [hfirst] at hword
    cases h
    exact ⟨⟨by omega, by omega, by omega, .inr rfl⟩, eq_ofParts hword⟩
  · cases h
    refine ⟨⟨by omega, by omega, by omega, .inl (by omega)⟩, ?_⟩
    rw [bitsOf_normal hfirst]
    exact eq_ofParts hword

theorem of_decode_infinite (h : decode x = .infinite negative) : x = infinity negative := by
  have hword := word_eq x.toBits.toNat_lt
  simp only [decode, Nat.pow_eq] at h
  split_ifs at h with hlast hzero
  cases h
  rw [hlast, hzero] at hword
  rw [eq_ofParts hword]
  cases x.toBits.toNat / 2 ^ 63 % 2 == 1 <;> decide +kernel

theorem toNat_unpackExponent (b : BitVec Format.binary64.numBits) :
    (unpackExponent b).toNat = b.toNat / 2 ^ 52 % 2 ^ 11 := by
  rw [unpackExponent_def, BitVec.extractLsb'_toNat, Nat.shiftRight_eq_div_pow]

theorem toNat_unpackMantissa (b : BitVec Format.binary64.numBits) :
    (unpackMantissa b).toNat = b.toNat % 2 ^ 52 := by
  rw [unpackMantissa_def, BitVec.extractLsb'_toNat, Nat.shiftRight_zero]

/-- There is one float that is no number. -/
theorem of_decode_nan (h : decode x = .nan) : x = nan := by
  obtain ⟨⟨bits, hvalid⟩⟩ := x
  simp only [decode, Nat.pow_eq] at h
  split_ifs at h with hlast hzero
  have hexponent : unpackExponent (show BitVec Format.binary64.numBits from bits.toBitVec) = -1#_ :=
    BitVec.eq_of_toNat_eq ((toNat_unpackExponent _).trans hlast)
  have hmantissa : unpackMantissa (show BitVec Format.binary64.numBits from bits.toBitVec) ≠ 0#_ :=
    fun hnone => hzero ((toNat_unpackMantissa _).symm.trans (congrArg BitVec.toNat hnone))
  have hbits : bits.toBitVec = packedNaN Format.binary64 := hvalid.eq_packedNaN hexponent hmantissa
  have hnan : nan.toBits.toBitVec = packedNaN Format.binary64 := by decide
  exact Float.toBits_inj.1 (UInt64.toBitVec_inj.1 (hbits.trans hnan.symm))

end Decoding

end BuildPipeline.Number
