import BuildPipeline.Proofs.Yaml.LexerRuns
import BuildPipeline.Yaml.Writer

/-! Scalars as they are written, and the one token that each of them is read as. -/

namespace BuildPipeline.Yaml

variable {cs r : List Char} {i n : Nat} {tag : Tag} {s : Scalar} {simple : Bool}

/-- The text that comes back of a scalar in a style. -/
def Style.reading (cs : List Char) : Style → List Char
  | .single => echo false cs
  | _ => cs

def scalarStyle (simple : Bool) (s : Scalar) : Style :=
  styleOf (scalarParts s).1 simple (scalarParts s).2.toList

/-- The text that is read for a scalar. -/
def scalarReading (simple : Bool) (s : Scalar) : List Char :=
  (scalarStyle simple s).reading (scalarParts s).2.toList

def scalarToken (simple : Bool) (s : Scalar) : Token :=
  .scalar (scalarReading simple s) (scalarStyle simple s = .plain)

theorem writeScalar_eq (i : Nat) (simple : Bool) (s : Scalar) :
    writeScalar i simple s = (scalarStyle simple s).write i (scalarParts s).2.toList := rfl

section Styles

theorem styleOf_plain (h : styleOf tag simple cs = .plain) :
    tag = .ofPlain cs ∧ allowsPlain cs := by
  rw [styleOf] at h
  split at h
  · rename_i hp
    exact ⟨hp.1, hp.2.2⟩
  · split at h <;> cases h

theorem styleOf_single (h : styleOf tag simple cs = .single) :
    allowsSingle cs ∧ (simple = false ∨ isMultiline cs = false) := by
  rw [styleOf] at h
  split at h
  · cases h
  · split at h
    · rename_i hs
      exact ⟨hs.1, by simpa using hs.2⟩
    · cases h

/-- An empty text counts as null without quotes, and null has a text. -/
theorem plain_ne_nil (h : scalarStyle simple s = .plain) : (scalarParts s).2.toList ≠ [] := by
  intro hnil
  obtain ⟨htag, -⟩ := styleOf_plain h
  have hnull : Tag.ofPlain [] = .null := by decide
  rw [hnil, hnull] at htag
  cases s with
  | null => exact absurd hnil (by decide)
  | bytes =>
    have : "null".toList = [] := hnil
    exact absurd this (by decide)
  | _ => cases htag

end Styles

theorem scans_scalar (i : Nat) (s : Scalar) :
    Scans (writeScalar (i + 1) false s) (scalarReading false s) (scalarStyle false s = .plain) := by
  rw [writeScalar_eq, scalarReading]
  cases h : scalarStyle false s with
  | plain => exact scans_plain (styleOf_plain h).2 (plain_ne_nil h)
  | single => exact scans_single (styleOf_single h).1
  | double => exact scans_double _

section Keys

theorem isSimpleKey_oneLine (h : isSimpleKey s) :
    ∀ x ∈ (scalarParts s).2.toList, isBreak x = false := by
  simp only [isSimpleKey, Bool.and_eq_true, Bool.not_eq_true', isMultiline, List.any_eq_false,
    Bool.not_eq_true] at h
  exact h.1.2

/-- Without breaks the indentation does not show. -/
theorem singleQuoted_oneLine (h : ∀ x ∈ cs, isBreak x = false) :
    singleQuoted i cs = singleQuoted n cs := by
  have hbody : singleBody i none cs = singleBody n none cs := by
    induction cs with
    | nil => rfl
    | cons x cs ih =>
      have hx := h x List.mem_cons_self
      rw [singleBody_cons hx, singleBody_cons hx, ih fun y hy => h y (List.mem_cons_of_mem _ hy)]
  rw [singleQuoted, singleQuoted, hbody]

/-- A key on one line is written the same wherever it stands. -/
theorem writeScalar_key (h : isSimpleKey s) (i n : Nat) :
    writeScalar i true s = writeScalar n true s := by
  rw [writeScalar_eq, writeScalar_eq]
  cases scalarStyle true s with
  | plain => rfl
  | single => exact singleQuoted_oneLine (isSimpleKey_oneLine h)
  | double => rfl

theorem scans_key (h : isSimpleKey s) (i : Nat) :
    Scans (writeScalar i true s) (scalarReading true s) (scalarStyle true s = .plain) := by
  rw [writeScalar_key h i 1, writeScalar_eq, scalarReading]
  cases h : scalarStyle true s with
  | plain => exact scans_plain (styleOf_plain h).2 (plain_ne_nil h)
  | single => exact scans_single (i := 0) (styleOf_single h).1
  | double => exact scans_double _

/-- A character that shows as it is and stays on its line. -/
def isLineGlyph (ch : Char) : Bool := isPlainGlyph ch && !isBreak ch

theorem isLineGlyph_iff {ch : Char} : isLineGlyph ch ↔ isPlainGlyph ch ∧ isBreak ch = false := by
  simp [isLineGlyph]

theorem takesColumn_of_lineGlyph {ch : Char} (h : isLineGlyph ch) : takesColumn ch := by
  have hr : ch ≠ '\r' := by rintro rfl; exact absurd h (by decide)
  have hm : ch ≠ '\uFEFF' := by rintro rfl; exact absurd h (by decide)
  simp [takesColumn, (isLineGlyph_iff.1 h).2, hr, hm]

theorem isLineGlyph_of_double {ch : Char} (h : isDoubleGlyph ch) : isLineGlyph ch := by
  simp only [isDoubleGlyph, Bool.and_eq_true, Bool.or_eq_true, Bool.not_eq_true',
    Bool.or_eq_false_iff, beq_eq_false_iff_ne, decide_eq_true_eq] at h
  obtain ⟨⟨⟨_, hbreak⟩, hmark⟩, hrange⟩ := h
  refine isLineGlyph_iff.2 ⟨?_, hbreak⟩
  simp only [isPlainGlyph, Bool.and_eq_true, Bool.or_eq_true, decide_eq_true_eq, bne_iff_ne]
  omega

theorem isLineGlyph_of_hex {x : Char} (h : Text.isHexDigit x) : isLineGlyph x := by
  have hbreak : isBreak x = false := Bool.eq_false_iff.2 fun hb => by
    simp only [isBreak, Bool.or_eq_true, beq_iff_eq] at hb
    rcases hb with ((rfl | rfl) | rfl) | rfl <;> exact absurd h (by decide)
  have hrange : 0x30 ≤ x.toNat ∧ x.toNat ≤ 0x66 := by
    rw [Text.isHexDigit, Text.hexDigit?] at h
    simp only [Char.le_def, UInt32.le_iff_toNat_le] at h
    change _ ≤ x.val.toNat ∧ x.val.toNat ≤ _
    split at h
    · rename_i hx
      exact ⟨hx.1, Nat.le_trans hx.2 (by decide)⟩
    · split at h
      · rename_i hx
        exact ⟨Nat.le_trans (by decide) hx.1, hx.2⟩
      · split at h
        · rename_i hx
          exact ⟨Nat.le_trans (by decide) hx.1, Nat.le_trans hx.2 (by decide)⟩
        · cases h
  refine isLineGlyph_iff.2 ⟨?_, hbreak⟩
  simp only [isPlainGlyph, Bool.and_eq_true, Bool.or_eq_true, decide_eq_true_eq, bne_iff_ne]
  omega

theorem isLineGlyph_shortEscapes : ∀ e ∈ shortEscapes, isLineGlyph e.2 := by decide

theorem isLineGlyph_escape {mark x : Char} {w k : Nat} (hm : isLineGlyph mark)
    (h : x ∈ '\\' :: mark :: Text.upperHex w k) : isLineGlyph x := by
  rcases List.mem_cons.1 h with rfl | h
  · rfl
  rcases List.mem_cons.1 h with rfl | h
  · exact hm
  · exact isLineGlyph_of_hex (isHexDigit_upperHex h)

theorem isLineGlyph_doubleChar {ch x : Char} (h : x ∈ doubleChar ch) : isLineGlyph x := by
  rw [doubleChar] at h
  split at h
  · rename_i hg
    rw [List.mem_singleton.1 h]
    exact isLineGlyph_of_double hg
  · split at h
    · rename_i e he
      rcases List.mem_cons.1 h with rfl | h
      · rfl
      · rw [List.mem_singleton.1 h]
        exact isLineGlyph_shortEscapes e (List.mem_of_find?_eq_some he)
    · split at h
      · exact isLineGlyph_escape rfl h
      · split at h <;> exact isLineGlyph_escape rfl h

theorem isLineGlyph_doubleQuoted {x : Char} (h : x ∈ doubleQuoted cs) : isLineGlyph x := by
  rw [doubleQuoted, List.cons_append, List.mem_cons, List.mem_append, List.mem_singleton] at h
  rcases h with rfl | h | rfl
  · rfl
  · obtain ⟨_, _, hx⟩ := List.mem_flatMap.1 h
    exact isLineGlyph_doubleChar hx
  · rfl

theorem isLineGlyph_singleBody (h : ∀ x ∈ cs, isLineGlyph x) :
    ∀ x ∈ singleBody i none cs, isLineGlyph x := by
  induction cs with
  | nil => simp [singleBody]
  | cons y cs ih =>
    obtain ⟨hy, hcs⟩ := List.forall_mem_cons.1 h
    rw [singleBody_cons (isLineGlyph_iff.1 hy).2]
    intro x hx
    rcases List.mem_append.1 hx with hx | hx
    · split at hx
      · have hquote : x = '\'' := by simpa using hx
        subst hquote
        rfl
      · rw [List.mem_singleton.1 hx]
        exact hy
    · exact ih hcs x hx

/-- A scalar without line breaks stays on its line. -/
theorem isLineGlyph_writeScalar (hline : ∀ x ∈ (scalarParts s).2.toList, isBreak x = false)
    (i : Nat) (simple : Bool) : ∀ x ∈ writeScalar i simple s, isLineGlyph x := by
  rw [writeScalar_eq]
  cases h : scalarStyle simple s with
  | plain =>
    have hbare := bare_of_allowsPlain (styleOf_plain h).2 (plain_ne_nil h)
    exact fun x hx => isLineGlyph_iff.2 (hbare.glyphs x hx)
  | single =>
    have hglyph := (allowsSingle_iff.1 (styleOf_single h).1).2.2
    intro x hx
    rw [Style.write, singleQuoted, List.cons_append, List.mem_cons, List.mem_append,
      List.mem_singleton] at hx
    rcases hx with rfl | hx | rfl
    · rfl
    · exact isLineGlyph_singleBody (fun y hy => isLineGlyph_iff.2 ⟨hglyph y hy, hline y hy⟩) x hx
    · rfl
  | double => exact fun _ => isLineGlyph_doubleQuoted

theorem isLineGlyph_key (h : isSimpleKey s) (i : Nat) :
    ∀ x ∈ writeScalar i true s, isLineGlyph x :=
  isLineGlyph_writeScalar (isSimpleKey_oneLine h) i true

theorem takesColumn_key (h : isSimpleKey s) (i : Nat) : ∀ x ∈ writeScalar i true s, takesColumn x :=
  fun x hx => takesColumn_of_lineGlyph (isLineGlyph_key h i x hx)

end Keys

section Fronts

theorem lineStart_cons {ch : Char}
    (h : ch ≠ ' ' ∧ ch ≠ '#' ∧ ch ≠ '\r' ∧ ch ≠ '\uFEFF' ∧ isBreak ch = false) (hd : ch ≠ '-')
    (hp : ch ≠ '.') : LineStart (ch :: r) :=
  ⟨solid_cons h, by simp [hd.symm], by simp [hp.symm]⟩

theorem lineStart_key (h : isSimpleKey s) (i : Nat) :
    LineStart (writeScalar i true s ++ ':' :: r) := by
  have hsolid := (scans_key h i).solid (':' :: r)
  rw [writeScalar_eq] at hsolid ⊢
  cases h : scalarStyle true s with
  | plain =>
    rw [h] at hsolid
    have hfront := hasIndicatorInFront_of_allowsPlain (styleOf_plain h).2 (plain_ne_nil h)
    have hne := plain_ne_nil h
    rw [Style.write] at hsolid ⊢
    generalize (scalarParts s).2.toList = cs at hsolid hfront hne ⊢
    obtain ⟨ch, w, rfl⟩ := List.exists_cons_of_ne_nil hne
    obtain ⟨⟨hdash, hdot⟩, -, -⟩ := Lexer.front_of_allowsPlain hfront
    exact ⟨hsolid, fun hp => hdash (Lexer.prefix_of_append hp (by decide)),
      fun hp => hdot (Lexer.prefix_of_append hp (by decide))⟩
  | single => exact lineStart_cons (by decide) (by decide) (by decide)
  | double => exact lineStart_cons (by decide) (by decide) (by decide)

end Fronts

end BuildPipeline.Yaml
