import BuildPipeline.Proofs.Json.Reordering
import BuildPipeline.Proofs.Json.WrittenScalars
import BuildPipeline.Text.Newline

/-!
Which documents can be written, and what characters they are written with. The digits of
whole numbers are all that stands in the way, and no carriage return is ever written.
-/

namespace BuildPipeline

open BuildPipeline.Text
open Yaml (Portable)

namespace Value

mutual

/-- The whole numbers in a document, keys apart. -/
def wholes : Value → List Int
  | .scalar (.int n) => [n]
  | .list vs => wholesAll vs
  | .pair k v => wholes k ++ wholes v
  | .dict es => wholesIn es
  | _ => []

def wholesAll : List Value → List Int
  | [] => []
  | v :: vs => wholes v ++ wholesAll vs

def wholesIn : List (Scalar × Value) → List Int
  | [] => []
  | (_, v) :: es => wholes v ++ wholesIn es

end

/-- No whole number of a document has too many digits. -/
def Short (v : Value) : Prop := ∀ n ∈ v.wholes, n.natAbs < 10 ^ Json.maxDigits

instance (v : Value) : Decidable v.Short :=
  inferInstanceAs (Decidable (∀ n ∈ v.wholes, n.natAbs < 10 ^ Json.maxDigits))

theorem wholesAll_eq (vs : List Value) : wholesAll vs = vs.flatMap wholes := by
  induction vs with
  | nil => rfl
  | cons v vs ih => rw [wholesAll, ih, List.flatMap_cons]

theorem wholesIn_of (t : Table String Value) :
    wholesIn (Dict.of t) = t.flatMap fun e => e.2.wholes := by
  induction t with
  | nil => rfl
  | cons e t ih =>
    rw [List.flatMap_cons, ← ih]
    rfl

theorem short_list {vs : List Value} : Short (.list vs) ↔ ∀ v ∈ vs, v.Short := by
  rw [Short, wholes, wholesAll_eq, List.forall_mem_flatMap]
  rfl

theorem short_ofTable {t : Table String Value} : Short (.ofTable t) ↔ ∀ e ∈ t, e.2.Short := by
  rw [Short, ofTable, ← Dict.of, wholes, wholesIn_of, List.forall_mem_flatMap]
  rfl

end Value

namespace Json

variable {l : Layout} {depth : Nat} {c : Char} {cs : List Char} {v : Value} {ts : List (List Char)}

section Except

variable {ε α : Type}

theorem forM_ite {f : α → Except ε Unit} {p : α → Prop} [DecidablePred p] {e : ε} {as : List α}
    (h : ∀ a ∈ as, f a = if p a then .ok () else .error e) :
    forM as f = if ∀ a ∈ as, p a then .ok () else .error e := by
  induction as with
  | nil => simp [pure, Except.pure]
  | cons a as ih =>
    rw [List.forM_cons, h a List.mem_cons_self, ih fun b hb => h b (List.mem_cons_of_mem a hb)]
    by_cases ha : p a <;> simp [ha, bind, Except.bind]

end Except

theorem intText_eq_ite (n : Int) :
    verdict (intText n) = if n.natAbs < 10 ^ maxDigits then .ok () else .error .tooLong := by
  have hlength := Nat.length_toDigits_le_iff (b := 10) (n := n.natAbs) (k := maxDigits)
    (by decide) (by decide)
  rw [intText_eq]
  by_cases h : n.natAbs < 10 ^ maxDigits
  · rw [if_pos h, if_neg (Nat.not_lt.2 (hlength.2 h))]
    rfl
  · rw [if_neg h, if_pos (Nat.not_le.1 (mt hlength.1 h))]
    rfl

/-- A document can be written unless a whole number in it has too many digits. -/
theorem verdict_encode (l : Layout) (depth : Nat) (hv : v.IsJson) :
    verdict (encode l depth v) = if v.Short then .ok () else .error .tooLong := by
  induction hv generalizing depth with
  | scalar s hs =>
    cases s with
    | int n =>
      have hshort : Value.Short (.int n) ↔ n.natAbs < 10 ^ maxDigits := by
        simp [Value.Short, Value.wholes]
      rw [encode, scalar, intText_eq_ite]
      exact if_congr hshort.symm rfl rfl
    | null | bool | float | str => exact (if_pos (by simp [Value.Short, Value.wholes])).symm
    | _ => exact hs.elim
  | list vs hvs ih =>
    rw [verdict_encode_list, forM_ite fun v hv => ih v hv (depth + 1)]
    exact if_congr Value.short_list.symm rfl rfl
  | table t ht hvs ih =>
    have hmem {e} : e ∈ t.mergeSort keyBefore ↔ e ∈ t := List.mem_mergeSort
    rw [Value.ofTable, ← Dict.of, verdict_encode_sorted,
      forM_ite fun e he => ih e (hmem.1 he) (depth + 1)]
    refine if_congr (Iff.trans ?_ Value.short_ofTable.symm) rfl rfl
    exact forall_congr' fun e => imp_congr_left hmem

theorem exists_write_iff_short (hv : v.IsJson) : (∃ s, write l v = .ok s) ↔ v.Short := by
  have hverdict := verdict_encode l 0 hv
  rw [write]
  cases hcs : encode l 0 v with
  | ok cs =>
    rw [hcs] at hverdict
    refine iff_of_true ⟨_, rfl⟩ (by_contra fun h => ?_)
    rw [if_neg h] at hverdict
    cases hverdict
  | error e =>
    rw [hcs] at hverdict
    refine iff_of_false (fun ⟨_, h⟩ => by cases h) fun h => ?_
    rw [if_pos h] at hverdict
    cases hverdict

theorem exists_write_iff (hv : Portable v) : (∃ s, write l v = .ok s) ↔ v.Short :=
  exists_write_iff_short (.of_portable hv)

theorem write_eq_error (hv : v.IsJson) (h : ¬v.Short) : write l v = .error .tooLong := by
  have hverdict := verdict_encode l 0 hv
  rw [if_neg h] at hverdict
  rw [write]
  cases hcs : encode l 0 v with
  | ok cs =>
    rw [hcs] at hverdict
    cases hverdict
  | error e =>
    rw [hcs] at hverdict
    cases hverdict
    rfl

section Returns

theorem not_mem_escapeChar (c : Char) : '\r' ∉ escapeChar c := by
  intro hmem
  rcases escapeChar_cases c with ⟨e, he, -, hshort⟩ | ⟨hlow, he⟩ | ⟨-, -, hhigh, he⟩
  · rw [he] at hmem
    simp only [List.mem_cons, List.not_mem_nil, or_false] at hmem
    rcases hmem with h | rfl
    · exact absurd h (by decide)
    · cases hshort
  · have hhex : ∀ n < 0x20, '\r' ∉ '\\' :: 'u' :: hex 4 n := by decide
    rw [he] at hmem
    exact hhex c.toNat hlow hmem
  · rw [he] at hmem
    obtain rfl := List.mem_singleton.1 hmem
    exact absurd hhigh (by decide)

theorem not_mem_quote (s : String) : '\r' ∉ quote s := by
  simp [quote, not_mem_escapeChar]

theorem not_mem_digits {ds : List Char} (hds : ∀ c ∈ ds, isDigit c) : '\r' ∉ ds :=
  fun h => absurd (hds '\r' h) (by decide)

theorem not_mem_shown {ws fs : List Char} {e : Option ℤ} {v : ℚ} (h : Spells ws fs e v) :
    '\r' ∉ shown ws fs e := by
  have hws := not_mem_digits h.whole.digits
  have hfs := not_mem_digits h.fraction
  have hpointed : '\r' ∉ pointed fs := by
    cases fs <;> simp_all [pointed]
  have hmarked : '\r' ∉ marked e := by
    cases e with
    | none => exact List.not_mem_nil
    | some e =>
      have hdigits := not_mem_digits (exponentDigits_spec e).1
      simp only [marked, List.mem_cons, hdigits, or_false, not_or]
      exact ⟨by decide, by split_ifs <;> decide⟩
  simp [shown, hws, hpointed, hmarked]

theorem not_mem_float (x : Float) : '\r' ∉ floatText x := by
  rw [floatText]
  cases hx : Number.decode x with
  | nan => simp
  | infinite negative => cases negative <;> simp
  | finite negative m q =>
    obtain ⟨ws, fs, e, v, htext, hspells, -⟩ := spells_display hx
    have hshown := not_mem_shown hspells
    rw [htext]
    split_ifs <;> simp [hshown]

theorem not_mem_scalar {s : Scalar} (hs : s.IsJson) (h : scalar s = .ok cs) :
    '\r' ∉ cs := by
  cases s with
  | null =>
    cases h
    decide
  | bool b =>
    cases h
    cases b <;> decide
  | int n =>
    intro hmem
    exact absurd ((whole_intText h).glyph hmem) (by decide)
  | float x =>
    cases h
    exact not_mem_float x
  | str s =>
    cases h
    exact not_mem_quote s
  | _ => exact hs.elim

theorem not_mem_enclose {opening closing : Char} (hopening : opening ≠ '\r')
    (hclosing : closing ≠ '\r') (hts : ∀ t ∈ ts, '\r' ∉ t) :
    '\r' ∉ l.enclose depth opening closing ts := by
  have hgap (depth : Nat) : '\r' ∉ l.gap depth := by cases l <;> simp [Layout.gap]
  cases ts with
  | nil => simp [Layout.enclose, hopening.symm, hclosing.symm]
  | cons t ts =>
    obtain ⟨ht, hts⟩ := List.forall_mem_cons.1 hts
    simpa [Layout.enclose, hopening.symm, hclosing.symm, hgap, ht] using hts

theorem not_mem_encode (hv : v.IsJson) (h : encode l depth v = .ok cs) : '\r' ∉ cs := by
  induction hv generalizing depth cs with
  | scalar s hs => exact not_mem_scalar hs h
  | list vs hvs ih =>
    obtain ⟨ts, hts, rfl⟩ := encode_list_eq_ok.1 h
    refine not_mem_enclose (by decide) (by decide) fun t ht => ?_
    obtain ⟨v, hv, hwritten⟩ := exists_mem_of_forall₂ hts ht
    exact ih v hv hwritten
  | table t ht hvs ih =>
    obtain ⟨ts, hts, rfl⟩ := encode_of_eq_ok.1 h
    refine not_mem_enclose (by decide) (by decide) fun cs hcs => ?_
    obtain ⟨e, he, t, hwritten, rfl⟩ := exists_mem_of_forall₂ hts hcs
    have hvalue := ih e (List.mem_mergeSort.1 he) hwritten
    cases l <;> simpa [Layout.colon, not_mem_quote] using hvalue

end Returns

end Json

end BuildPipeline
