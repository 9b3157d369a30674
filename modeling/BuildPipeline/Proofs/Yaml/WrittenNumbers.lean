import BuildPipeline.Yaml.Literal
import BuildPipeline.Yaml.Style

/-! Whole numbers as they are written: plain scalars that look like whole numbers and are read as
themselves, as long as they have no more digits than a reader takes. -/

namespace BuildPipeline.Yaml

open BuildPipeline.Text

def decimalGlyphs : List Char := "0123456789".toList

variable {c : Char} {cs ds : List Char} {n : Int}

section Numerals

/-- A fact about some characters is checked for each of them, not for every character. -/
theorem forall_of_all {p : Char → Prop} [DecidablePred p] (h : cs.all fun x => decide (p x)) :
    ∀ x ∈ cs, p x := fun x hx => of_decide_eq_true (List.all_eq_true.1 h x hx)

theorem mem_decimalGlyphs (h : isDecimalDigit c) : c ∈ decimalGlyphs := by
  simp only [isDecimalDigit, Bool.and_eq_true, decide_eq_true_eq, Char.le_def,
    UInt32.le_iff_toNat_le] at h
  have hc : c = Char.ofNat c.toNat := (Char.ofNat_toNat c).symm
  have hn : c.toNat < 58 := Nat.lt_succ_of_le h.2
  have hall : ∀ n < 58, 48 ≤ n → Char.ofNat n ∈ decimalGlyphs := by decide
  rw [hc]
  exact hall c.toNat hn h.1

/-- Decimal digits without a zero in front of others. -/
structure Numeral (ds : List Char) : Prop where
  digits : ∀ c ∈ ds, isDecimalDigit c
  front : ∃ c r, ds = c :: r ∧ (c = '0' → r = [])

theorem isDecimalDigit_iff : isDecimalDigit c ↔ c.isDigit := by
  simp [isDecimalDigit, Char.isDigit, Char.le_def, UInt32.le_iff_toNat_le]

theorem numeral_toDigits (n : Nat) : Numeral (Nat.toDigits 10 n) := by
  refine ⟨fun c hc => ?_, ?_⟩
  · exact isDecimalDigit_iff.2 (Nat.isDigit_of_mem_toDigits (by decide) (by decide) hc)
  induction n using Nat.strongRecOn with
  | ind n ih =>
    rw [Nat.toDigits_eq_if (by decide)]
    split
    · exact ⟨_, [], rfl, fun _ => rfl⟩
    · obtain ⟨c, r, hcr, hzero⟩ := ih (n / 10) (by omega)
      rw [hcr]
      refine ⟨c, r ++ _, rfl, fun hc => ?_⟩
      -- A zero in front would be all of `n / 10`.
      have hr := hzero hc
      rw [hc, hr] at hcr
      have hvalue := Nat.ofDigitChars_ten_toDigits (n := n / 10)
      rw [hcr] at hvalue
      have : n / 10 = 0 := hvalue.symm
      omega

theorem toList_toString_int (n : Int) : (toString n).toList
    = (if n < 0 then ['-'] else []) ++ Nat.toDigits 10 n.natAbs := by
  rw [Int.toString_eq_repr, Int.repr_eq_if]
  by_cases h : n < 0
  · have habs : (-n).toNat = n.natAbs := by omega
    rw [if_neg (by omega), if_pos h, String.toList_append, Nat.toList_repr, habs]
    rfl
  · have habs : n.toNat = n.natAbs := by omega
    rw [if_pos (by omega), if_neg h, Nat.toList_repr, habs]
    rfl

/-- A numeral behind a minus or behind nothing. -/
inductive Whole : List Char → List Char → Prop
  | bare {ds : List Char} : Numeral ds → Whole ds ds
  | minus {ds : List Char} : Numeral ds → Whole ('-' :: ds) ds

theorem whole_toString (n : Int) : Whole (toString n).toList (Nat.toDigits 10 n.natAbs) := by
  rw [toList_toString_int]
  split
  · exact .minus (numeral_toDigits _)
  · exact .bare (numeral_toDigits _)

theorem Whole.numeral (h : Whole cs ds) : Numeral ds := by
  cases h <;> assumption

theorem Numeral.digit_cons {r : List Char} (h : Numeral (c :: r)) : c ∈ decimalGlyphs :=
  mem_decimalGlyphs (h.digits c List.mem_cons_self)

theorem Whole.dropSign (h : Whole cs ds) : dropSign cs = ds := by
  cases h with
  | bare h =>
    obtain ⟨c, r, rfl, -⟩ := h.front
    have hc := h.digit_cons
    have hminus : c ≠ '-' := by rintro rfl; exact absurd hc (by decide)
    have hplus : c ≠ '+' := by rintro rfl; exact absurd hc (by decide)
    simp [Yaml.dropSign, hminus, hplus]
  | minus => rfl

theorem Whole.front (h : Whole cs ds) : ∃ c r, cs = c :: r ∧ c ∈ '-' :: decimalGlyphs := by
  cases h with
  | bare h =>
    obtain ⟨c, r, rfl, -⟩ := h.front
    exact ⟨c, r, rfl, List.mem_cons_of_mem _ h.digit_cons⟩
  | minus => exact ⟨_, _, rfl, List.mem_cons_self⟩

theorem Whole.glyph (h : Whole cs ds) (hc : c ∈ cs) : c ∈ '-' :: decimalGlyphs := by
  cases h with
  | bare h => exact List.mem_cons_of_mem _ (mem_decimalGlyphs (h.digits c hc))
  | minus h =>
    rcases List.mem_cons.1 hc with rfl | hc
    · exact List.mem_cons_self
    · exact List.mem_cons_of_mem _ (mem_decimalGlyphs (h.digits c hc))

end Numerals

section Looks

theorem Numeral.dropRest {r : List Char} (h : Numeral (c :: r)) :
    r.dropWhile isDigitOrLow = [] := by
  have hr : ∀ x ∈ r, isDigitOrLow x := fun x hx => by
    simp [isDigitOrLow, h.digits x (List.mem_cons_of_mem c hx)]
  have hdrop : (r ++ []).dropWhile isDigitOrLow = [].dropWhile isDigitOrLow :=
    List.dropWhile_append_of_pos hr
  simpa using hdrop

theorem Numeral.dropRun (h : Numeral ds) : dropRun isDecimalDigit isDigitOrLow ds = some [] := by
  obtain ⟨c, r, rfl, -⟩ := h.front
  simp [Yaml.dropRun, h.digits c List.mem_cons_self, h.dropRest]

theorem Whole.looksFloat (h : Whole cs ds) : looksFloat cs = false := by
  have hrun := h.numeral.dropRun
  obtain ⟨d, w, rfl, -⟩ := h.numeral.front
  have hdot : d ≠ '.' := by
    rintro rfl
    exact absurd h.numeral.digit_cons (by decide)
  obtain ⟨c, r, rfl, hc⟩ := h.front
  have hfront : c ≠ '.' := by rintro rfl; exact absurd hc (by decide)
  simp [Yaml.looksFloat, looksPointed, looksFraction, looksSixtiesPointed, isOneOf, h.dropSign,
    hrun, hdot.symm, hfront, hfront.symm]

theorem Whole.looksInt (h : Whole cs ds) : looksInt cs = true := by
  have hdecimal : looksDecimal cs = true := by
    obtain ⟨c, r, rfl, hzero⟩ := h.numeral.front
    rw [looksDecimal, h.dropSign]
    split
    · rename_i heq
      cases heq
      rw [hzero rfl]
      rfl
    · rename_i heq
      cases heq
      simp [h.numeral.digits _ List.mem_cons_self, h.numeral.dropRest, atEnd]
    · rename_i heq
      cases heq
  simp [Yaml.looksInt, hdecimal]

theorem Whole.ofPlain (h : Whole cs ds) : Tag.ofPlain cs = .int := by
  have hfloat := h.looksFloat
  have hint := h.looksInt
  obtain ⟨c, r, rfl, hc⟩ := h.front
  have hword : ∀ c ∈ '-' :: decimalGlyphs, "yYnNtTfFoO".toList.contains c = false :=
    forall_of_all (by decide)
  have hnumber : ∀ c ∈ '-' :: decimalGlyphs, "-+0123456789".toList.contains c = true :=
    forall_of_all (by decide)
  simp only [Tag.ofPlain, List.head?_cons, hword c hc, hnumber c hc, hfloat, hint]
  simp

theorem hasIndicatorWithin_eq_false {p : Option Char} (h : ∀ x ∈ cs, x ≠ ':' ∧ x ≠ '#') :
    hasIndicatorWithin p cs = false := by
  induction cs generalizing p with
  | nil => rfl
  | cons x cs ih =>
    obtain ⟨hcolon, hhash⟩ := h x List.mem_cons_self
    simp [hasIndicatorWithin, hcolon, hhash, ih fun y hy => h y (List.mem_cons_of_mem x hy)]

theorem startsOrEnds_eq_false {p : Char → Bool} (h : ∀ x ∈ cs, p x = false) :
    startsOrEnds p cs = false := by
  have hend (o : Option Char) (ho : ∀ x ∈ o, x ∈ cs) : (o.map p).getD false = false := by
    cases o with
    | none => rfl
    | some x => exact h x (ho x rfl)
  simp [startsOrEnds, hend _ fun _ => List.mem_of_mem_head?, hend _ fun _ => List.mem_of_getLast?]

theorem Whole.hasIndicatorInFront (h : Whole cs ds) : hasIndicatorInFront cs = false := by
  have hglyph : ∀ x ∈ decimalGlyphs, x ≠ '-' ∧ x ≠ '.' ∧ x ≠ '?' ∧ separates x = false
      ∧ "#,[]{}&*!|>'\"%@\x60".toList.contains x = false := forall_of_all (by decide)
  obtain ⟨d, w, rfl, -⟩ := h.numeral.front
  obtain ⟨hminus, hdot, hmark, hsep, hlist⟩ := hglyph d h.numeral.digit_cons
  cases h with
  | bare => simpa [Yaml.hasIndicatorInFront, hminus, hdot, hmark] using hlist
  | minus => simp [Yaml.hasIndicatorInFront, hminus, hsep]

theorem Whole.allowsPlain (h : Whole cs ds) : allowsPlain cs = true := by
  have hglyph : ∀ x ∈ '-' :: decimalGlyphs,
      isPlainGlyph x ∧ isBreak x = false ∧ x ≠ ' ' ∧ x ≠ ':' ∧ x ≠ '#' :=
    forall_of_all (by decide)
  have hends : startsOrEnds (· == ' ') cs = false := startsOrEnds_eq_false fun x hx => by
    simp [(hglyph x (h.glyph hx)).2.2.1]
  have hline : isMultiline cs = false := List.any_eq_false.2 fun x hx => by
    simp [(hglyph x (h.glyph hx)).2.1]
  have hplain : hasSpecial cs = false := List.any_eq_false.2 fun x hx => by
    simp [(hglyph x (h.glyph hx)).1]
  have hwithin : hasIndicatorWithin none cs = false :=
    hasIndicatorWithin_eq_false fun x hx => (hglyph x (h.glyph hx)).2.2.2
  simp [Yaml.allowsPlain, hends, hline, hplain, h.hasIndicatorInFront, hwithin]

end Looks

section Reading

theorem digit?_decimal : ∀ x ∈ decimalGlyphs, digit? x = some (x.toNat - '0'.toNat)
    ∧ x.toNat - '0'.toNat < 10 := forall_of_all (by decide)

theorem foldlM_digits (h : ∀ x ∈ cs, isDecimalDigit x) (k : Nat) :
    cs.foldlM (fun n x => do
      let d ← Number.baseDigit? x
      if d < 10 then some (10 * n + d) else none) k = some (Nat.ofDigitChars 10 cs k) := by
  induction cs generalizing k with
  | nil => simp
  | cons x cs ih =>
    obtain ⟨hx, hlt⟩ := digit?_decimal x (mem_decimalGlyphs (h x List.mem_cons_self))
    have hbase : Number.baseDigit? x = some (x.toNat - '0'.toNat) := by rw [Number.baseDigit?, hx]
    rw [List.foldlM_cons, hbase, Nat.ofDigitChars_cons]
    change (if _ then _ else _ : Option Nat) >>= _ = _
    rw [if_pos hlt]
    exact ih (fun y hy => h y (List.mem_cons_of_mem x hy)) _

theorem Numeral.digits? (h : Numeral ds) :
    Number.digits? 10 ds = some (Nat.ofDigitChars 10 ds 0) := by
  obtain ⟨c, r, rfl, -⟩ := h.front
  exact foldlM_digits h.digits 0

theorem trimStart_of_not_blank (h : ∀ x ∈ cs, isBlank x = false) : trimStart cs = cs := by
  cases cs with
  | nil => rfl
  | cons x cs => simp [trimStart, h x List.mem_cons_self]

theorem trim_of_not_blank (h : ∀ x ∈ cs, isBlank x = false) : trim cs = cs := by
  have hreverse : trimStart cs.reverse = cs.reverse :=
    trimStart_of_not_blank fun x hx => h x (List.mem_reverse.1 hx)
  rw [trim, trimStart_of_not_blank h, hreverse, List.reverse_reverse]

theorem Numeral.readInt (h : Numeral ds) :
    Number.readInt 10 ds = some (Int.ofNat (Nat.ofDigitChars 10 ds 0)) := by
  have hblank : ∀ x ∈ decimalGlyphs, isBlank x = false := forall_of_all (by decide)
  have htrim : trim ds = ds :=
    trim_of_not_blank fun x hx => hblank x (mem_decimalGlyphs (h.digits x hx))
  have hsign : Number.takeSign ds = (false, ds) := by
    obtain ⟨c, r, rfl, -⟩ := h.front
    have hsigns : ∀ x ∈ decimalGlyphs, x ≠ '-' ∧ x ≠ '+' := forall_of_all (by decide)
    obtain ⟨hminus, hplus⟩ := hsigns c h.digit_cons
    simp [Number.takeSign, hminus, hplus]
  have hbody : (Number.digits? 10 ds).map (Number.signed false)
      = some (Int.ofNat (Nat.ofDigitChars 10 ds 0)) := by
    rw [h.digits?]
    rfl
  simp only [Number.readInt, htrim, hsign]
  split
  · rw [if_neg (by simp)]
    exact hbody
  · exact hbody

theorem Numeral.literalInt (h : Numeral ds) : literalInt 10 ds
    = if Json.maxDigits < ds.length then .error (.tooLong ds.length)
      else .ok (Int.ofNat (Nat.ofDigitChars 10 ds 0)) := by
  have hfilter : ds.filter (fun x => (digit? x).isSome) = ds := List.filter_eq_self.2 fun x hx => by
    rw [(digit?_decimal x (mem_decimalGlyphs (h.digits x hx))).1]
    rfl
  rw [Yaml.literalInt, h.readInt]
  simp only [hfilter, true_and]

theorem Numeral.readMagnitude (h : Numeral ds) : readMagnitude ds
    = if Json.maxDigits < ds.length then .error (.tooLong ds.length)
      else .ok (Int.ofNat (Nat.ofDigitChars 10 ds 0)) := by
  have hliteral := h.literalInt
  obtain ⟨c, r, rfl, hzero⟩ := h.front
  by_cases hc : c = '0'
  · obtain rfl := hzero hc
    subst hc
    rfl
  · have hcolon : ¬(':' = c ∨ ':' ∈ r) := fun hmem =>
      absurd (mem_decimalGlyphs (h.digits ':' (List.mem_cons.2 hmem))) (by decide)
    rw [← hliteral]
    simp [Yaml.readMagnitude, hc, hcolon]

/-- A whole number is read as itself, if it has no more digits than a reader takes. -/
theorem readInt_toString (n : Int) : readInt (toString n).toList
    = if Json.maxDigits < (Nat.toDigits 10 n.natAbs).length
      then .error (.tooLong (Nat.toDigits 10 n.natAbs).length) else .ok n := by
  have hlow : withoutLowLines (toString n).toList = (toString n).toList :=
    List.filter_eq_self.2 fun x hx => by
      have hglyph : ∀ x ∈ '-' :: decimalGlyphs, (x != '_') = true := forall_of_all (by decide)
      exact hglyph x ((whole_toString n).glyph hx)
  have hmagnitude := (numeral_toDigits n.natAbs).readMagnitude
  rw [Nat.ofDigitChars_ten_toDigits] at hmagnitude
  rw [Yaml.readInt, hlow, toList_toString_int]
  by_cases hn : n < 0
  · rw [if_pos hn]
    change (do return -(← readMagnitude (Nat.toDigits 10 n.natAbs))) = _
    rw [hmagnitude]
    split
    · rfl
    · have habs : -Int.ofNat n.natAbs = n := by rw [Int.ofNat_eq_natCast]; omega
      exact congrArg Except.ok habs
  · have habs : Int.ofNat n.natAbs = n := by rw [Int.ofNat_eq_natCast]; omega
    rw [if_neg hn, List.nil_append]
    rw [habs] at hmagnitude
    obtain ⟨c, r, hcr, -⟩ := (numeral_toDigits n.natAbs).front
    have hsigns : ∀ x ∈ decimalGlyphs, x ≠ '-' ∧ x ≠ '+' := forall_of_all (by decide)
    obtain ⟨hminus, hplus⟩ := hsigns c (hcr ▸ numeral_toDigits n.natAbs).digit_cons
    rw [hcr] at hmagnitude ⊢
    simpa [hminus, hplus] using hmagnitude

end Reading

end BuildPipeline.Yaml
