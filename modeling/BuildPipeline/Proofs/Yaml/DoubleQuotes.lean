import BuildPipeline.Proofs.Yaml.SingleQuotes
import Mathlib.Algebra.Group.Nat.Defs

/-! Double quotes: every text comes back as it was. -/

namespace BuildPipeline.Yaml

open BuildPipeline.Text

variable {c d : Cursor} {ch : Char} {r cs ds : List Char} {n w : Nat}

section Escapes

theorem hexDigit?_upperDigits : ∀ k < 16, hexDigit? (upperDigits.getD k '0') = some k := by decide

theorem length_upperHex (w n : Nat) : (upperHex w n).length = w := by
  rw [upperHex]
  induction w generalizing n with
  | zero => rfl
  | succ w ih => rw [digits, List.length_append, ih, List.length_singleton]

theorem isHexDigit_upperHex {x : Char} (h : x ∈ upperHex w n) : isHexDigit x := by
  rw [upperHex] at h
  induction w generalizing n with
  | zero => cases h
  | succ w ih =>
    rw [digits, List.mem_append, List.mem_singleton] at h
    rcases h with h | rfl
    · exact ih h
    · rw [isHexDigit, hexDigit?_upperDigits _ (Nat.mod_lt _ (by decide))]
      rfl

theorem hexValue_append (cs : List Char) (ch : Char) :
    hexValue (cs ++ [ch]) = 16 * hexValue cs + (hexDigit? ch).getD 0 := by
  rw [hexValue, List.foldl_append]
  rfl

theorem hexValue_upperHex (h : n < 16 ^ w) : hexValue (upperHex w n) = n := by
  rw [upperHex]
  induction w generalizing n with
  | zero =>
    have : n = 0 := by simpa using h
    rw [this]
    rfl
  | succ w ih =>
    have hdiv : n / 16 < 16 ^ w := by
      rw [Nat.pow_succ] at h
      exact Nat.div_lt_of_lt_mul (by omega)
    rw [digits, hexValue_append, ih hdiv, hexDigit?_upperDigits _ (Nat.mod_lt _ (by decide))]
    exact Nat.div_add_mod n 16

theorem charOfCode_toNat (ch : Char) : charOfCode ch.toNat = .ok ch := by
  have hv : ch.toNat.isValidChar := ch.valid
  have hlt : ch.toNat < 0x110000 := by
    rcases hv with h | h <;> omega
  have hs : ¬(0xD800 ≤ ch.toNat ∧ ch.toNat ≤ 0xDFFF) := by
    rcases hv with h | h <;> omega
  rw [charOfCode, if_neg (by omega), if_neg (by omega), if_neg hs, Char.ofNat_toNat]

/-- An escape of two characters and the one that writes it know each other. -/
theorem escapes_shortEscapes :
    ∀ e ∈ shortEscapes, escapes.find? (·.1 == e.2) = some (e.2, e.1) := by decide

theorem escape_short {e : Char × Char} (he : e ∈ shortEscapes) (h : c.rest = e.2 :: r) :
    escape c = .ok ([e.1], c.next) := by
  simp only [escape, Cursor.front_eq h, escapes_shortEscapes e he]

theorem escape_hex {mark : Char} (hm : escapes.find? (·.1 == mark) = none)
    (hw : escapeWidth? mark = some w) (h : c.rest = mark :: (upperHex w ch.toNat ++ r))
    (hn : ch.toNat < 16 ^ w) : escape c = .ok ([ch], c.skip (w + 1)) := by
  have hds : c.next.rest.take w = upperHex w ch.toNat := by
    rw [Cursor.rest_next, h]
    exact List.take_left' (length_upperHex _ _)
  have hhex : (upperHex w ch.toNat).all isHexDigit :=
    List.all_eq_true.2 fun _ => isHexDigit_upperHex
  simp only [escape, Cursor.front_eq h, hm, hw, hds, length_upperHex, hhex, hexValue_upperHex hn,
    charOfCode_toNat]
  rfl

/-- A character that cannot stand for itself is written as a backslash and its escape. -/
theorem escape_doubleChar (hch : isDoubleGlyph ch = false) (h : c.rest = doubleChar ch ++ r) :
    (∃ r', c.rest = '\\' :: r') ∧ escape c.next = .ok ([ch], c.skip (doubleChar ch).length) := by
  rw [doubleChar, if_neg (by simp [hch])] at h ⊢
  split at h
  · rename_i e he
    have hmem := List.mem_of_find?_eq_some he
    have heq : e.1 = ch := by simpa using List.find?_some he
    refine ⟨⟨_, h⟩, ?_⟩
    subst heq
    have hnext : c.next.rest = e.2 :: r := by rw [Cursor.rest_next, h]; rfl
    rw [escape_short hmem hnext]
    rfl
  · split at h
    · rename_i hn
      refine ⟨⟨_, h⟩, ?_⟩
      have hnext : c.next.rest = 'x' :: (upperHex 2 ch.toNat ++ r) := by
        rw [Cursor.rest_next, h]; rfl
      rw [escape_hex rfl rfl hnext (by omega), if_pos hn, List.length_cons, List.length_cons,
        length_upperHex]
      rfl
    split at h
    · rename_i hl hn
      refine ⟨⟨_, h⟩, ?_⟩
      have hnext : c.next.rest = 'u' :: (upperHex 4 ch.toNat ++ r) := by
        rw [Cursor.rest_next, h]; rfl
      rw [escape_hex rfl rfl hnext (by omega), if_neg hl, if_pos hn, List.length_cons,
        List.length_cons, length_upperHex]
      rfl
    · rename_i hl hn
      refine ⟨⟨_, h⟩, ?_⟩
      have hnext : c.next.rest = 'U' :: (upperHex 8 ch.toNat ++ r) := by
        rw [Cursor.rest_next, h]; rfl
      have hsize : ch.toNat < 16 ^ 8 := by
        have hv : ch.toNat.isValidChar := ch.valid
        rcases hv with h | h <;> omega
      rw [escape_hex rfl rfl hnext hsize, if_neg hl, if_neg hn, List.length_cons,
        List.length_cons, length_upperHex]
      rfl

end Escapes

section Reading

/-- What stands for itself between double quotes separates only if it is a space. -/
theorem double_not_separates (h : isDoubleGlyph ch) (hs : ch ≠ ' ') : separates ch = false := by
  have h0 : ch ≠ '\x00' := by rintro rfl; exact absurd h (by decide)
  have ht : ch ≠ '\t' := by rintro rfl; exact absurd h (by decide)
  have hr : ch ≠ '\r' := by rintro rfl; exact absurd h (by decide)
  have hb : isBreak ch = false := by
    cases hb : isBreak ch with
    | false => rfl
    | true => simp [isDoubleGlyph, hb] at h
  simp [separates, h0, hs, ht, hr, hb]

def doubleBody (cs : List Char) : List Char := cs.flatMap doubleChar

theorem doubleBody_cons (ch : Char) (cs : List Char) :
    doubleBody (ch :: cs) = doubleChar ch ++ doubleBody cs := List.flatMap_cons

theorem doubleBody_spaces (k : Nat) : doubleBody (spaces k ++ cs) = spaces k ++ doubleBody cs := by
  induction k with
  | zero => rfl
  | succ k ih => rw [spaces_succ, List.cons_append, doubleBody_cons, ih]; rfl

theorem doubleBody_head (hcs : ∀ x ∈ cs.head?, x ≠ ' ') (r : List Char) :
    ∃ ch r', doubleBody cs ++ '"' :: r = ch :: r' ∧ separates ch = false := by
  cases cs with
  | nil => exact ⟨'"', r, rfl, rfl⟩
  | cons x cs =>
    rw [doubleBody_cons, doubleChar]
    split
    · rename_i hx
      exact ⟨x, _, rfl, double_not_separates hx (hcs x rfl)⟩
    · split
      · exact ⟨'\\', _, rfl, rfl⟩
      · split
        · exact ⟨'\\', _, rfl, rfl⟩
        · split <;> exact ⟨'\\', _, rfl, rfl⟩

theorem length_doubleChar_pos (ch : Char) : 0 < (doubleChar ch).length := by
  rw [doubleChar]
  split
  · exact Nat.one_pos
  · split
    · exact Nat.two_pos
    · split
      · exact Nat.succ_pos _
      · split <;> exact Nat.succ_pos _

theorem run_doubleChar {text : List Char} (h : c.rest = doubleChar ch ++ r) (hs : ch ≠ ' ')
    (hmore : Run true (c.skip (doubleChar ch).length) text d) : Run true c (ch :: text) d := by
  by_cases hch : isDoubleGlyph ch
  · have hsep := double_not_separates hch hs
    rw [doubleChar, if_pos hch] at h hmore
    by_cases hq : ch = '\''
    · exact .mark h (by simp [standsWithin, hq]) hmore
    · simp only [isDoubleGlyph, Bool.and_eq_true, Bool.not_eq_true', Bool.or_eq_false_iff,
        beq_eq_false_iff_ne] at hch
      exact .glyph h (by simp [isQuotedGlyph, hq, hsep, hch.1.1.1.1, hch.1.1.1.2]) hmore
  · rw [Bool.not_eq_true] at hch
    obtain ⟨⟨r', hr'⟩, hescape⟩ := escape_doubleChar hch h
    refine .escaped rfl hr' hescape ?_ hmore
    rw [Cursor.rest_skip, List.length_drop, hr', List.length_cons]
    have := length_doubleChar_pos ch
    omega

theorem quoted_doubleBody (hc : c.rest = doubleBody cs ++ '"' :: r) :
    Quoted true c cs (c.skip ((doubleBody cs).length + 1)) := by
  induction hk : cs.length using Nat.strongRecOn generalizing c cs with
  | ind k ih =>
    cases cs with
    | nil => exact .close (.quote (Cursor.front_eq hc) (by simp)) (Cursor.front_eq hc)
    | cons x cs =>
      rw [List.length_cons] at hk
      by_cases hs : x = ' '
      · obtain ⟨bs, ds, rfl, hbs, hds⟩ := exists_span (· == ' ') cs
        obtain ⟨j, rfl⟩ : ∃ j, bs = spaces j :=
          ⟨bs.length, List.eq_replicate_iff.2 ⟨rfl, by simpa using hbs⟩⟩
        subst hs
        change c.rest = doubleBody (spaces (j + 1) ++ ds) ++ '"' :: r at hc
        change Quoted true c (spaces (j + 1) ++ ds)
          (c.skip ((doubleBody (spaces (j + 1) ++ ds)).length + 1))
        rw [doubleBody_spaces] at hc ⊢
        rw [List.append_assoc] at hc
        have hskip : (c.skip (j + 1)).rest = doubleBody ds ++ '"' :: r := by
          rw [Cursor.rest_skip, hc, List.drop_left' (length_spaces _)]
        have hmore := ih ds.length (by simp at hk; omega) hskip rfl
        obtain ⟨ch, r', htail, hch⟩ := doubleBody_head (by simpa using hds) r
        rw [htail] at hc
        rw [List.length_append, length_spaces, Nat.add_assoc, Cursor.skip_add]
        exact .spaces hc hch hmore
      rw [doubleBody_cons] at hc ⊢
      rw [List.append_assoc] at hc
      have hskip : (c.skip (doubleChar x).length).rest = doubleBody cs ++ '"' :: r := by
        rw [Cursor.rest_skip, hc, List.drop_left]
      have hmore := ih cs.length (by omega) hskip rfl
      rw [List.length_append, Nat.add_assoc, Cursor.skip_add]
      exact hmore.prepend [x] (by simp) fun text f h => run_doubleChar hc hs h

theorem quotedScalar_double (hc : c.rest = doubleQuoted cs ++ r) :
    quotedScalar true c = .ok (cs, c.skip (doubleQuoted cs).length) := by
  have hnext : c.next.rest = doubleBody cs ++ '"' :: r := by
    rw [Cursor.rest_next, hc, doubleQuoted, doubleBody]
    simp
  have hread := (quoted_doubleBody hnext).rest_eq (c.fuel + 1) ?_
  · rw [quotedScalar, hread, doubleQuoted, List.length_append]
    rfl
  · rw [Cursor.fuel, Cursor.rest_next, List.length_drop]
    omega

end Reading

end BuildPipeline.Yaml
