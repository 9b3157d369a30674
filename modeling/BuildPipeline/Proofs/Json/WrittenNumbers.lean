import BuildPipeline.Json.Writer
import BuildPipeline.Proofs.Number.ShortestDigits
import BuildPipeline.Proofs.Yaml.WrittenContent

/-!
Numbers as they are written in JSON: each of them is read as itself, whatever ends it. The digits of
a float stand before and after the point and in an exponent, and it is the nearest float to what
they tell.
-/

namespace BuildPipeline.Json

open BuildPipeline.Text
open Number (Decimal)
open Yaml (Whole Numeral forall_of_all decimalGlyphs)

variable {cs ds ws fs rest : List Char} {e : Option ℤ}

/-- What may stand behind a value: its end, a comma, a bracket or a line feed. -/
def Ends (rest : List Char) : Prop := ∀ c ∈ rest.head?, c ∈ [',', ']', '\x7d', '\n']

/-- Digits end here. -/
def Stops (rest : List Char) : Prop := ∀ c ∈ rest.head?, isDigit c = false

theorem Ends.stops (h : Ends rest) : Stops rest := by
  have hends : ∀ c ∈ [',', ']', '\x7d', '\n'], isDigit c = false := forall_of_all (by decide)
  exact fun c hc => hends c (h c hc)

theorem takeWhile_digits (hds : ∀ x ∈ ds, isDigit x) (hrest : Stops rest) :
    (ds ++ rest).takeWhile isDigit = ds ∧ (ds ++ rest).dropWhile isDigit = rest := by
  rw [List.takeWhile_append_of_pos hds, List.dropWhile_append_of_pos hds]
  cases rest with
  | nil => simp
  | cons c rest =>
    have hc := hrest c rfl
    simp [hc]

section Parts

/-- A fraction with its point, if there is one. -/
def pointed : List Char → List Char
  | [] => []
  | fs => '.' :: fs

/-- The digits of an exponent, at least two. -/
def exponentDigits (e : ℤ) : List Char :=
  Number.zeros (2 - (toString e.natAbs).toList.length) ++ (toString e.natAbs).toList

/-- An exponent with its mark, if there is one. -/
def marked : Option ℤ → List Char
  | none => []
  | some e => 'e' :: (if e < 0 then '-' else '+') :: exponentDigits e

theorem fractionDigits_of_not_point (hrest : '.' ∉ rest.head?) :
    fractionDigits rest = ([], rest) := by
  cases rest with
  | nil => rfl
  | cons c rest =>
    rw [fractionDigits]
    rintro d r heq
    exact hrest (congrArg some (List.cons.inj heq).1)

theorem fractionDigits_pointed (hfs : ∀ c ∈ fs, isDigit c) (hrest : Stops rest)
    (hpoint : '.' ∉ rest.head?) : fractionDigits (pointed fs ++ rest) = (fs, rest) := by
  cases fs with
  | nil => exact fractionDigits_of_not_point hpoint
  | cons d fs =>
    obtain ⟨hd, hfs⟩ := List.forall_mem_cons.1 hfs
    obtain ⟨htake, hdrop⟩ := takeWhile_digits hfs hrest
    simp [pointed, fractionDigits, hd, htake, hdrop]

theorem isDigit_zeros (n : ℕ) : ∀ c ∈ Number.zeros n, isDigit c := by
  intro c hc
  rw [List.eq_of_mem_replicate hc]
  decide

theorem decimalValue_eq (ds : List Char) : decimalValue ds = Nat.ofDigitChars 10 ds 0 := rfl

theorem decimalValue_toDigits (n : Nat) : decimalValue (Nat.toDigits 10 n) = n :=
  Nat.ofDigitChars_ten_toDigits

theorem decimalValue_zeros (n : ℕ) (ds : List Char) :
    decimalValue (Number.zeros n ++ ds) = decimalValue ds := by
  rw [decimalValue_eq, Number.zeros, Nat.ofDigitChars_append, Nat.ofDigitChars_replicate_zero,
    Nat.mul_zero]
  rfl

theorem decimalValue_append_zeros (ds : List Char) (n : ℕ) :
    decimalValue (ds ++ Number.zeros n) = 10 ^ n * decimalValue ds := by
  rw [decimalValue_eq, Number.zeros, Nat.ofDigitChars_append, Nat.ofDigitChars_replicate_zero]
  rfl

theorem exponentPart_of_ends (hrest : Ends rest) : exponentPart rest = none := by
  cases rest with
  | nil => rfl
  | cons c rest =>
    have hends : ∀ c ∈ [',', ']', '\x7d', '\n'], ¬(c = 'e' ∨ c = 'E') :=
      forall_of_all (by decide)
    simp only [exponentPart, if_neg (hends c (hrest c rfl))]

theorem signed_natAbs (e : ℤ) : Number.signed (e < 0) e.natAbs = e := by
  simp only [Number.signed, Int.ofNat_eq_natCast, decide_eq_true_eq]
  split_ifs <;> omega

theorem exponentDigits_spec (e : ℤ) : (∀ c ∈ exponentDigits e, isDigit c)
    ∧ exponentDigits e ≠ [] ∧ decimalValue (exponentDigits e) = e.natAbs := by
  obtain ⟨hdigits, c, r, hfront, -⟩ := Yaml.numeral_toDigits e.natAbs
  rw [exponentDigits, decimalValue_zeros, Nat.toString_eq_repr, Nat.toList_repr]
  refine ⟨fun c hc => ?_, by simp [hfront], decimalValue_toDigits _⟩
  rcases List.mem_append.1 hc with hc | hc
  · exact isDigit_zeros _ c hc
  · exact hdigits c hc

theorem exponentPart_marked (e : Option ℤ) (hrest : Ends rest) :
    exponentPart (marked e ++ rest) = e.map fun e => (e, rest) := by
  cases e with
  | none => exact exponentPart_of_ends hrest
  | some e =>
    obtain ⟨hdigits, hne, hvalue⟩ := exponentDigits_spec e
    obtain ⟨htake, hdrop⟩ := takeWhile_digits hdigits hrest.stops
    have hsigned := signed_natAbs e
    by_cases hnegative : e < 0
    · simp only [hnegative, decide_true] at hsigned
      simp [marked, exponentPart, hnegative, htake, hdrop, hne, hvalue, hsigned]
    · simp only [hnegative, decide_false] at hsigned
      simp [marked, exponentPart, hnegative, htake, hdrop, hne, hvalue, hsigned]

/-- A number without a sign: its digits before the point, a fraction and an exponent. -/
def shown (ws fs : List Char) (e : Option ℤ) : List Char := ws ++ pointed fs ++ marked e

/-- What is made of the parts of a number. -/
def madeOf (negative : Bool) (ws fs : List Char) : Option ℤ → Scalar
  | some e => .float (Number.ofDecimal negative (decimalValue (ws ++ fs)) (e - fs.length))
  | none =>
    if fs.isEmpty then .int (Number.signed negative (decimalValue ws))
    else .float (Number.ofDecimal negative (decimalValue (ws ++ fs)) (-fs.length))

theorem head?_marked (e : Option ℤ) (hrest : Ends rest) :
    ∀ c ∈ (marked e ++ rest).head?, c ∈ ['e', ',', ']', '\x7d', '\n'] := by
  cases e with
  | none => exact fun c hc => List.mem_cons_of_mem 'e' (hrest c hc)
  | some e =>
    intro c hc
    cases hc
    exact List.mem_cons_self

/-- What ends the digits before the point tells the rest of a number. -/
theorem number_whole {tail after : List Char} (hws : Numeral ws)
    (hlength : fs = [] → e = none → ws.length ≤ maxDigits) (htail : Stops tail)
    (hfraction : fractionDigits tail = (fs, after))
    (hexponent : exponentPart after = e.map fun e => (e, rest)) (hafter : e = none → after = rest) :
    number (ws ++ tail) = .ok (madeOf false ws fs e, rest)
      ∧ number ('-' :: ws ++ tail) = .ok (madeOf true ws fs e, rest) := by
  obtain ⟨htake, hdrop⟩ := takeWhile_digits hws.digits htail
  obtain ⟨c, r, rfl, hzero⟩ := hws.front
  have hminus : c ≠ '-' := by
    rintro rfl
    exact absurd (hws.digits '-' List.mem_cons_self) (by decide)
  cases e with
  | some e =>
    by_cases hc : c = '0'
    · obtain rfl := hzero hc
      subst hc
      simp [number, hfraction, hexponent, madeOf]
    · rw [List.cons_append] at htake hdrop
      simp [number, hminus, hc, htake, hdrop, hfraction, hexponent, madeOf]
  | none =>
    obtain rfl := hafter rfl
    by_cases hc : c = '0'
    · obtain rfl := hzero hc
      subst hc
      cases fs <;> simp [number, hfraction, hexponent, madeOf, maxDigits]
    · rw [List.cons_append] at htake hdrop
      cases fs with
      | nil =>
        simpa [number, hminus, hc, htake, hdrop, hfraction, hexponent, madeOf]
          using hlength rfl rfl
      | cons d fs => simp [number, hminus, hc, htake, hdrop, hfraction, hexponent, madeOf]

/-- The parts of a number are found one after the other. -/
theorem number_shown (hws : Numeral ws) (hlength : fs = [] → e = none → ws.length ≤ maxDigits)
    (hfs : ∀ c ∈ fs, isDigit c) (hrest : Ends rest) :
    number (shown ws fs e ++ rest) = .ok (madeOf false ws fs e, rest)
      ∧ number ('-' :: shown ws fs e ++ rest) = .ok (madeOf true ws fs e, rest) := by
  have hmarks : ∀ c ∈ ['e', ',', ']', '\x7d', '\n'], isDigit c = false ∧ c ≠ '.' :=
    forall_of_all (by decide)
  have hstops : Stops (marked e ++ rest) := fun c hc => (hmarks c (head?_marked e hrest c hc)).1
  have hpoint : '.' ∉ (marked e ++ rest).head? :=
    fun hc => (hmarks '.' (head?_marked e hrest '.' hc)).2 rfl
  have htail : Stops (pointed fs ++ (marked e ++ rest)) := by
    cases fs with
    | nil => exact hstops
    | cons d fs =>
      intro c hc
      cases hc
      rfl
  have hafter (he : e = none) : marked e ++ rest = rest := by rw [he]; rfl
  have hnumber := number_whole hws hlength htail (fractionDigits_pointed hfs hstops hpoint)
    (exponentPart_marked e hrest) hafter
  simpa [shown] using hnumber

end Parts

section Wholes

theorem intText_eq (n : Int) : intText n
    = if maxDigits < (Nat.toDigits 10 n.natAbs).length then .error .tooLong
      else .ok (if n < 0 then '-' :: Nat.toDigits 10 n.natAbs else Nat.toDigits 10 n.natAbs) := by
  rw [intText, Nat.toString_eq_repr, Nat.toList_repr]

/-- A whole number that is written is read as itself. -/
theorem number_intText {n : Int} (h : intText n = .ok cs) (hrest : Ends rest) :
    number (cs ++ rest) = .ok (.int n, rest) := by
  rw [intText_eq] at h
  split at h
  · cases h
  · rename_i hlength
    have hnone : ∀ c ∈ ([] : List Char), isDigit c := by simp
    obtain ⟨hbare, hminus⟩ := number_shown (Yaml.numeral_toDigits n.natAbs)
      (fun _ (_ : (none : Option ℤ) = none) => Nat.not_lt.1 hlength) hnone hrest
    simp only [shown, pointed, marked, List.append_nil, madeOf, List.isEmpty_nil, if_true,
      decimalValue_toDigits] at hbare hminus
    have hsigned := signed_natAbs n
    cases h
    split_ifs with hnegative
    · rw [decide_eq_true hnegative] at hsigned
      rw [hminus, hsigned]
    · rw [decide_eq_false hnegative] at hsigned
      rw [hbare, hsigned]

end Wholes

section Floats

/-- Parts that tell a ratio, and a point or an exponent among them. -/
structure Spells (ws fs : List Char) (e : Option ℤ) (v : ℚ) : Prop where
  whole : Numeral ws
  fraction : ∀ c ∈ fs, isDigit c
  float : fs = [] → e ≠ none
  value : (decimalValue (ws ++ fs) : ℚ) * 10 ^ (e.getD 0 - fs.length : ℤ) = v

/-- Digits with no zero in front. -/
structure Significant (ds : List Char) : Prop where
  digits : ∀ c ∈ ds, isDigit c
  front : ∃ c r, ds = c :: r ∧ c ≠ '0'

theorem significant_toDigits {n : ℕ} (hn : n ≠ 0) : Significant (Nat.toDigits 10 n) := by
  obtain ⟨hdigits, c, r, hfront, hzero⟩ := Yaml.numeral_toDigits n
  refine ⟨hdigits, c, r, hfront, fun hc => hn ?_⟩
  rw [← decimalValue_toDigits n, hfront, hzero hc, hc]
  rfl

theorem Significant.append (h : Significant ds) (hws : ∀ c ∈ ws, isDigit c) :
    Numeral (ds ++ ws) := by
  obtain ⟨hdigits, c, r, rfl, hc⟩ := h
  exact ⟨fun c hmem => (List.mem_append.1 hmem).elim (hdigits c) (hws c), c, r ++ ws, rfl,
    fun hzero => absurd hzero hc⟩

theorem Significant.take (h : Significant ds) {k : ℕ} (hk : 0 < k) : Numeral (ds.take k) := by
  obtain ⟨hdigits, c, r, rfl, hc⟩ := h
  obtain ⟨k, rfl⟩ := Nat.exists_eq_add_one_of_ne_zero hk.ne'
  exact ⟨fun c hmem => hdigits c (List.mem_of_mem_take hmem), c, r.take k, rfl,
    fun hzero => absurd hzero hc⟩

theorem numeral_zero : Numeral ['0'] := ⟨isDigit_zeros 1, '0', [], rfl, fun _ => rfl⟩

theorem pointed_eq (h : fs ≠ []) : pointed fs = '.' :: fs := by
  cases fs with
  | nil => exact absurd rfl h
  | cons c fs => rfl

theorem spells_positional (hds : Significant ds) (point : ℤ) : ∃ ws fs,
    Number.positional ds point = shown ws fs none
      ∧ Spells ws fs none (decimalValue ds * 10 ^ (point - ds.length)) := by
  rw [Number.positional]
  split_ifs with hfirst hinside
  · -- The digits stand behind the point, behind some zeros.
    have hne : Number.zeros (-point).toNat ++ ds ≠ [] := by
      obtain ⟨-, c, r, rfl, -⟩ := hds
      simp
    refine ⟨['0'], Number.zeros (-point).toNat ++ ds, by simp [shown, pointed_eq hne, marked],
      numeral_zero, fun c hc => ?_, fun hnone => absurd hnone hne, ?_⟩
    · exact (List.mem_append.1 hc).elim (isDigit_zeros _ c) (hds.digits c)
    · rw [show ['0'] = Number.zeros 1 from rfl, decimalValue_zeros, decimalValue_zeros]
      congr 2
      rw [List.length_append, Number.zeros, List.length_replicate, Option.getD_none]
      omega
  · -- The point stands among the digits.
    have hne : ds.drop point.toNat ≠ [] := by
      rw [ne_eq, List.drop_eq_nil_iff]
      omega
    refine ⟨ds.take point.toNat, ds.drop point.toNat, by simp [shown, pointed_eq hne, marked],
      hds.take (by omega), fun c hc => hds.digits c (List.mem_of_mem_drop hc),
      fun hnone => absurd hnone hne, ?_⟩
    rw [List.take_append_drop]
    congr 2
    rw [List.length_drop, Option.getD_none]
    omega
  · -- The digits stand before the point, with some zeros behind them.
    refine ⟨ds ++ Number.zeros (point.toNat - ds.length), ['0'], by simp [shown, pointed, marked],
      hds.append (isDigit_zeros _), isDigit_zeros 1, by simp, ?_⟩
    have hzeros (j : ℕ) : Number.zeros j ++ ['0'] = Number.zeros (j + 1) :=
      List.replicate_succ'.symm
    have hplace : (point - ds.length : ℤ) = (point.toNat - ds.length : ℕ) := by omega
    rw [List.append_assoc, hzeros, decimalValue_append_zeros, hplace, zpow_natCast]
    norm_num [pow_succ]
    ring

theorem spells_scientific (hds : Significant ds) (point : ℤ) : ∃ ws fs e,
    Number.scientific ds point = shown ws fs (some e)
      ∧ Spells ws fs (some e) (decimalValue ds * 10 ^ (point - ds.length)) := by
  obtain ⟨hdigits, c, r, rfl, hc⟩ := hds
  obtain ⟨hfirst, hrest⟩ := List.forall_mem_cons.1 hdigits
  have hwhole : Numeral [c] :=
    ⟨List.forall_mem_singleton.2 hfirst, c, [], rfl, fun hzero => absurd hzero hc⟩
  refine ⟨[c], r, point - 1, ?_, hwhole, hrest, by simp, ?_⟩
  · cases r <;> simp [Number.scientific, shown, pointed, marked, exponentDigits]
  · congr 2
    rw [List.length_cons, Option.getD_some]
    omega

theorem spells_layout {d : Decimal} (hd : d.digits ≠ 0) :
    ∃ ws fs e, Number.layout d = shown ws fs e ∧ Spells ws fs e d.value := by
  have hds := significant_toDigits hd
  have hvalue (point : ℤ) (hpoint : point = (Nat.toDigits 10 d.digits).length + d.exponent) :
      (decimalValue (Nat.toDigits 10 d.digits) : ℚ)
        * 10 ^ (point - (Nat.toDigits 10 d.digits).length) = d.value := by
    rw [hpoint, add_sub_cancel_left, decimalValue_toDigits, Decimal.value]
  rw [Number.layout, Nat.toString_eq_repr, Nat.toList_repr, Int.ofNat_eq_natCast]
  split_ifs
  · obtain ⟨ws, fs, htext, hspells⟩ := spells_positional hds
      ((Nat.toDigits 10 d.digits).length + d.exponent)
    rw [hvalue _ rfl] at hspells
    exact ⟨ws, fs, none, htext, hspells⟩
  · obtain ⟨ws, fs, e, htext, hspells⟩ := spells_scientific hds
      ((Nat.toDigits 10 d.digits).length + d.exponent)
    rw [hvalue _ rfl] at hspells
    exact ⟨ws, fs, some e, htext, hspells⟩

/-- Parts that tell a ratio are read as the nearest float. -/
theorem Spells.number {v : ℚ} (h : Spells ws fs e v) (hrest : Ends rest) (negative : Bool) :
    number ((if negative then '-' :: shown ws fs e else shown ws fs e) ++ rest)
      = .ok (.float (Number.ofDecimal negative (decimalValue (ws ++ fs)) (e.getD 0 - fs.length)),
        rest) := by
  obtain ⟨hbare, hminus⟩ := number_shown h.whole (fun hnone he => absurd he (h.float hnone))
    h.fraction hrest
  have hparts (negative : Bool) : madeOf negative ws fs e
      = .float (Number.ofDecimal negative (decimalValue (ws ++ fs)) (e.getD 0 - fs.length)) := by
    cases e with
    | some e => rfl
    | none =>
      rw [madeOf, if_neg fun hnone => h.float (List.isEmpty_iff.1 hnone) rfl, Option.getD_none,
        zero_sub]
  cases negative with
  | false => rw [if_neg Bool.false_ne_true, hbare, hparts]
  | true => rw [if_pos rfl, hminus, hparts]

theorem spells_zero : Spells ['0'] ['0'] none 0 where
  whole := numeral_zero
  fraction := isDigit_zeros 1
  float := by simp
  value := by
    rw [show decimalValue (['0'] ++ ['0']) = 0 from rfl, Nat.cast_zero, zero_mul]

section Display

variable {x : Float} {negative : Bool} {m : ℕ} {q : ℤ}

/-- The digits of a finite float. -/
theorem spells_display (hx : Number.decode x = .finite negative m q) : ∃ ws fs e v,
    (Number.display x).toList = (if negative then '-' :: shown ws fs e else shown ws fs e)
      ∧ Spells ws fs e v ∧ (m = 0 → v = 0) ∧ (m ≠ 0 → Number.Near m q v) := by
  rw [Number.display, hx]
  by_cases hm : m = 0
  · refine ⟨['0'], ['0'], none, 0, ?_, spells_zero, fun _ => rfl, fun h => absurd hm h⟩
    simp [hm, shown, pointed, marked]
  · have hnear := Number.near_shortest hm q
    have hdigits : (Number.shortest m q).digits ≠ 0 := by
      intro hzero
      have hle := hnear.le hm
      rw [Decimal.value, hzero, Nat.cast_zero, zero_mul] at hle
      exact absurd hle (not_le.2 (by positivity))
    obtain ⟨ws, fs, e, htext, hspells⟩ := spells_layout hdigits
    refine ⟨ws, fs, e, _, ?_, hspells, fun h => absurd h hm, fun _ => hnear⟩
    simp only [hm, if_false, htext, String.toList_ofList]

/-- The text of a finite float is read as that float. -/
theorem number_display (hx : Number.decode x = .finite negative m q) (hrest : Ends rest) :
    number ((Number.display x).toList ++ rest) = .ok (.float x, rest) := by
  obtain ⟨hc, hparts⟩ := Number.of_decode_finite hx
  obtain ⟨ws, fs, e, v, htext, hspells, hzero, hnear⟩ := spells_display hx
  rw [htext, hspells.number hrest, hparts]
  by_cases hm : m = 0
  · have hvalue := hspells.value.trans (hzero hm)
    rw [mul_eq_zero_iff_right (by positivity), Nat.cast_eq_zero] at hvalue
    have hq : q = -1074 := hc.leading.resolve_left (by rw [hm]; decide)
    rw [hvalue, hm, hq, Number.ofDecimal_zero]
    rfl
  · rw [Number.ofDecimal_of_near hc hm]
    rw [hspells.value]
    exact hnear hm

end Display

end Floats

end BuildPipeline.Json
