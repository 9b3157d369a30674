import BuildPipeline.Proofs.DocumentLaws
import BuildPipeline.Proofs.Json.WrittenNumbers

/-! Scalars as they are written in JSON: each of them is read as itself, whatever ends it. -/

namespace BuildPipeline

/-- Scalars that JSON has. -/
def Scalar.IsJson : Scalar → Prop
  | .null | .bool _ | .int _ | .float _ | .str _ => True
  | .bytes _ | .date _ | .moment _ => False

namespace Json

open BuildPipeline.Text
open Yaml (Whole Numeral forall_of_all decimalGlyphs)

variable {c : Char} {cs ds rest : List Char} {start fuel : Nat} {s : Scalar}

section Texts

theorem unicodeEscape_hex {n : Nat} (h : n < 32) (c : Char) (rest : List Char) :
    unicodeEscape (hex 4 n ++ c :: rest) = .ok (Char.ofNat n, c :: rest) := by
  have hdigits : ∀ n < 32, (hex 4 n).all isHexDigit ∧ hexValue (hex 4 n) = n := by decide
  have hplain : ∀ n < 32, isHigh n = false ∧ isLow n = false := by decide
  obtain ⟨hall, hvalue⟩ := hdigits n h
  have hread (start : Nat) : unicodeDigits start (hex 4 n ++ c :: rest) = .ok (n, c :: rest) := by
    change (if (hex 4 n).all isHexDigit then Except.ok (hexValue (hex 4 n), c :: rest) else _) = _
    rw [if_pos hall, hvalue]
  simp [unicodeEscape, hread, hplain n h, bind, Except.bind]

/-- The characters with an escape of their own. -/
def shortEscaped : List Char := ['"', '\\', '\n', '\r', '\t', '\x0c', '\x08']

/-- A character has a short escape, or it is a control character and has its number, or it stands
for itself. -/
theorem escapeChar_cases (c : Char) :
    (∃ e, escapeChar c = ['\\', e] ∧ e ≠ 'u' ∧ shortEscape? e = some c)
      ∨ (c.toNat < 0x20 ∧ escapeChar c = '\\' :: 'u' :: hex 4 c.toNat)
      ∨ (c ≠ '"' ∧ c ≠ '\\' ∧ 0x20 ≤ c.toNat ∧ escapeChar c = [c]) := by
  by_cases hshort : c ∈ shortEscaped
  · have hall : ∀ c ∈ shortEscaped, (['"', '\\', 'n', 'r', 't', 'f', 'b'].any fun e =>
        decide (escapeChar c = ['\\', e] ∧ e ≠ 'u' ∧ shortEscape? e = some c)) :=
      forall_of_all (by decide)
    obtain ⟨e, -, h⟩ := List.any_eq_true.1 (hall c hshort)
    exact .inl ⟨e, of_decide_eq_true h⟩
  · simp only [shortEscaped, List.mem_cons, List.not_mem_nil, or_false, not_or] at hshort
    obtain ⟨hquote, hslash, hn, hr, ht, hf, hb⟩ := hshort
    by_cases hlow : c.toNat < 0x20
    · exact .inr (.inl ⟨hlow, by simp [escapeChar, *]⟩)
    · exact .inr (.inr ⟨hquote, hslash, by omega, by simp [escapeChar, *]⟩)

/-- A character that is written is read as itself. -/
theorem stringBody_escapeChar (start fuel : Nat) (c x : Char) (rest : List Char) :
    stringBody start (fuel + 1) (escapeChar c ++ x :: rest)
      = (stringBody start fuel (x :: rest)).map fun p => (c :: p.1, p.2) := by
  rcases escapeChar_cases c with ⟨e, he, hu, hc⟩ | ⟨hlow, he⟩ | ⟨hquote, hslash, hhigh, he⟩
  · rw [he]
    simp only [List.cons_append, List.nil_append, stringBody, hc]
    rfl
  · have hread := unicodeEscape_hex hlow x rest
    rw [Char.ofNat_toNat] at hread
    rw [he]
    simp only [List.cons_append, stringBody, hread]
    rfl
  · rw [he]
    simp only [List.cons_append, List.nil_append, stringBody, if_neg (Nat.not_le.2 hhigh)]
    rfl

theorem length_escapeChar_pos (c : Char) : 0 < (escapeChar c).length := by
  rcases escapeChar_cases c with ⟨e, he, -⟩ | ⟨-, he⟩ | ⟨-, -, -, he⟩ <;> simp [he]

theorem length_le_flatMap_escapeChar (cs : List Char) :
    cs.length ≤ (cs.flatMap escapeChar).length := by
  induction cs with
  | nil => exact Nat.le_refl _
  | cons c cs ih =>
    have := length_escapeChar_pos c
    simp only [List.length_cons, List.flatMap_cons, List.length_append]
    omega

theorem stringBody_flatMap (h : cs.length < fuel) (rest : List Char) :
    stringBody start fuel (cs.flatMap escapeChar ++ '"' :: rest) = .ok (cs, rest) := by
  induction cs generalizing fuel with
  | nil =>
    obtain ⟨fuel, rfl⟩ := Nat.exists_eq_add_of_lt h
    rfl
  | cons c cs ih =>
    obtain ⟨fuel, rfl⟩ := Nat.exists_eq_add_one_of_ne_zero (Nat.ne_zero_of_lt h)
    obtain ⟨x, r, hr⟩ := List.exists_cons_of_ne_nil
      (show cs.flatMap escapeChar ++ '"' :: rest ≠ [] by simp)
    rw [List.flatMap_cons, List.append_assoc, hr, stringBody_escapeChar, ← hr,
      ih (Nat.lt_of_succ_lt_succ h)]
    rfl

/-- A text in quotes is read as itself. -/
theorem string_quote (s : String) (rest : List Char) :
    string (s.toList.flatMap escapeChar ++ '"' :: rest) = .ok (s, rest) := by
  have hlength := length_le_flatMap_escapeChar s.toList
  rw [string, stringBody_flatMap (by simp only [List.length_append]; omega)]
  simp [bind, Except.bind, pure, Except.pure]

end Texts

section Scalars

/-- What neither opens a text nor a collection is a word or a number. -/
theorem value_plain (hc : c ∉ ['"', '\x7b', '[']) (fuel : Nat) (cs : List Char) :
    value (fuel + 1) (c :: cs) = match word? (c :: cs) with
      | some (s, r) => .ok (.scalar s, r)
      | none => (number (c :: cs)).map fun p => (.scalar p.1, p.2) := by
  simp only [List.mem_cons, List.not_mem_nil, or_false, not_or] at hc
  obtain ⟨hquote, hbrace, hbracket⟩ := hc
  rw [value]
  · rfl
  · exact fun r heq => hquote (List.cons.inj heq).1
  · exact fun r heq => hbrace (List.cons.inj heq).1
  · exact fun r heq => hbracket (List.cons.inj heq).1

theorem word?_whole (h : Whole cs ds) (rest : List Char) : word? (cs ++ rest) = none := by
  have hglyph : ∀ c ∈ decimalGlyphs, c ≠ 'n' ∧ c ≠ 't' ∧ c ≠ 'f' ∧ c ≠ 'N' ∧ c ≠ 'I' ∧ c ≠ '-' :=
    forall_of_all (by decide)
  obtain ⟨d, r, rfl, -⟩ := h.numeral.front
  obtain ⟨hn, ht, hf, hN, hI, hminus⟩ := hglyph d h.numeral.digit_cons
  cases h <;> simp [word?, words, hn.symm, ht.symm, hf.symm, hN.symm, hI.symm, hminus.symm]

theorem whole_intText {n : Int} (h : intText n = .ok cs) :
    Whole cs (Nat.toDigits 10 n.natAbs) := by
  rw [intText_eq] at h
  split at h
  · cases h
  · cases h
    split
    · exact .minus (Yaml.numeral_toDigits _)
    · exact .bare (Yaml.numeral_toDigits _)

/-- The text of a finite float starts as that of a whole number does. -/
theorem exists_whole_display {x : Float} {negative : Bool} {m : ℕ} {q : ℤ}
    (hx : Number.decode x = .finite negative m q) :
    ∃ cs ds tail, (Number.display x).toList = cs ++ tail ∧ Whole cs ds := by
  obtain ⟨ws, fs, e, v, htext, hspells, -⟩ := spells_display hx
  cases negative with
  | false =>
    refine ⟨ws, ws, pointed fs ++ marked e, ?_, .bare hspells.whole⟩
    simp [htext, shown]
  | true =>
    refine ⟨'-' :: ws, ws, pointed fs ++ marked e, ?_, .minus hspells.whole⟩
    simp [htext, shown]

/-- A float that is written is read as itself. -/
theorem value_float (x : Float) (hrest : Ends rest) :
    value (fuel + 1) (floatText x ++ rest) = .ok (.scalar (.float x), rest) := by
  cases hx : Number.decode x with
  | nan =>
    rw [floatText, hx, Number.of_decode_nan hx]
    rfl
  | infinite negative =>
    rw [floatText, hx, Number.of_decode_infinite hx]
    cases negative <;> rfl
  | finite negative m q =>
    have hnumber := number_display hx hrest
    obtain ⟨cs, ds, tail, htext, hwhole⟩ := exists_whole_display hx
    have hword := word?_whole hwhole (tail ++ rest)
    obtain ⟨c, r, rfl, hc⟩ := hwhole.front
    have hplain : ∀ c ∈ '-' :: decimalGlyphs, c ∉ ['"', '\x7b', '['] := forall_of_all (by decide)
    rw [floatText, hx]
    dsimp only
    rw [htext, List.append_assoc, List.cons_append] at hnumber ⊢
    rw [List.cons_append] at hword
    rw [value_plain (hplain c hc), hword, hnumber]
    rfl

/-- A scalar that is written is read as itself. -/
theorem value_scalar (hs : s.IsJson) (h : scalar s = .ok cs) (hrest : Ends rest) :
    value (fuel + 1) (cs ++ rest) = .ok (.scalar s, rest) := by
  cases s with
  | null =>
    cases h
    rfl
  | bool b =>
    cases h
    cases b <;> rfl
  | int n =>
    have hword := word?_whole (whole_intText h) rest
    have hnumber := number_intText h hrest
    obtain ⟨c, r, rfl, hc⟩ := (whole_intText h).front
    have hplain : ∀ c ∈ '-' :: decimalGlyphs, c ∉ ['"', '\x7b', '['] := forall_of_all (by decide)
    rw [List.cons_append] at hword hnumber ⊢
    rw [value_plain (hplain c hc), hword, hnumber]
    rfl
  | float x =>
    cases h
    exact value_float x hrest
  | str s =>
    cases h
    simp only [quote, List.cons_append, List.append_assoc, List.nil_append, value, string_quote]
    rfl
  | _ => exact hs.elim

/-- What a written value starts with. -/
def fronts : List Char := "\"[\x7b-0123456789ntfNI".toList

theorem front_whole (h : Whole cs ds) : ∃ c r, cs = c :: r ∧ c ∈ fronts := by
  obtain ⟨c, r, hcs, hc⟩ := h.front
  have hfronts : ∀ c ∈ '-' :: decimalGlyphs, c ∈ fronts := forall_of_all (by decide)
  exact ⟨c, r, hcs, hfronts c hc⟩

theorem front_float (x : Float) : ∃ c r, floatText x = c :: r ∧ c ∈ fronts := by
  rw [floatText]
  cases hx : Number.decode x with
  | nan => exact ⟨_, _, rfl, by decide⟩
  | infinite negative => cases negative <;> exact ⟨_, _, rfl, by decide⟩
  | finite negative m q =>
    obtain ⟨cs, ds, tail, htext, hwhole⟩ := exists_whole_display hx
    obtain ⟨c, r, rfl, hc⟩ := front_whole hwhole
    exact ⟨c, r ++ tail, htext, hc⟩

theorem front_scalar (hs : s.IsJson) (h : scalar s = .ok cs) :
    ∃ c r, cs = c :: r ∧ c ∈ fronts := by
  cases s with
  | null =>
    cases h
    exact ⟨_, _, rfl, by decide⟩
  | bool b =>
    cases h
    cases b <;> exact ⟨_, _, rfl, by decide⟩
  | int n => exact front_whole (whole_intText h)
  | float x =>
    cases h
    exact front_float x
  | str s =>
    cases h
    exact ⟨_, _, rfl, by decide⟩
  | _ => exact hs.elim

end Scalars

end Json

end BuildPipeline
