import BuildPipeline.Proofs.Yaml.CursorLaws
import BuildPipeline.Yaml.Token.Scalar

/-!
What quotes hold. `Run` and `Quoted` say it character by character; the readers agree with them
whatever their fuel.
-/

namespace BuildPipeline.Yaml

open BuildPipeline.Text

def closingQuote (double : Bool) : Char := if double then '"' else '\''

/-- A mark that stands for itself within the other kind of quotes. -/
def standsWithin (double : Bool) (ch : Char) : Bool :=
  double && ch == '\'' || !double && (ch == '"' || ch == '\\')

/-- Text within quotes up to a blank, a break or the closing quote. -/
inductive Run (double : Bool) : Cursor → List Char → Cursor → Prop
  | blank {c} : separates c.front → Run double c [] c
  | quote {c} : c.front = closingQuote double → (double = false → c.peek 1 ≠ '\'') →
      Run double c [] c
  | glyph {c d ch r cs} : c.rest = ch :: r → isQuotedGlyph ch → Run double c.next cs d →
      Run double c (ch :: cs) d
  | mark {c d ch r cs} : c.rest = ch :: r → standsWithin double ch → Run double c.next cs d →
      Run double c (ch :: cs) d
  | pair {c d r cs} : double = false → c.rest = '\'' :: '\'' :: r → Run double (c.skip 2) cs d →
      Run double c ('\'' :: cs) d
  | escaped {c d e r here cs} : double = true → c.rest = '\\' :: r →
      escape c.next = .ok (here, d) → d.rest.length ≤ r.length → Run double d cs e →
      Run double c (here ++ cs) e

/-- Text and blanks up to and over the closing quote. -/
inductive Quoted (double : Bool) : Cursor → List Char → Cursor → Prop
  | close {c d text} : Run double c text d → d.front = closingQuote double →
      Quoted double c text d.next
  | blanks {c d e f text blanks more} : Run double c text d → d.front ≠ closingQuote double →
      quotedSpaces d = .ok (blanks, e) → e.rest.length < c.rest.length → Quoted double e more f →
      Quoted double c (text ++ blanks ++ more) f

variable {double : Bool} {c d e : Cursor} {ch : Char} {r cs text : List Char}

theorem separates_not_glyph (h : separates ch) : isQuotedGlyph ch = false := by
  simp [isQuotedGlyph, h]

theorem span_cons {p : Char → Bool} (h : c.rest = ch :: r) (hch : p ch) :
    c.span p = (ch :: (c.next.span p).1, (c.next.span p).2) := by
  have hr : c.next.rest = r := by rw [Cursor.rest_next, h]; rfl
  simp only [Cursor.span, h, hr, List.takeWhile_cons_of_pos hch]
  rfl

theorem quotedText_blank (h : separates c.front) (fuel : Nat) :
    quotedText double fuel c = .ok ([], c) := by
  cases fuel with
  | zero => rfl
  | succ fuel =>
    have hs : c.span isQuotedGlyph = ([], c) := Cursor.span_none (separates_not_glyph h)
    have h1 : c.front ≠ '\'' := by rintro hc; rw [hc] at h; exact absurd h (by decide)
    have h2 : c.front ≠ '"' := by rintro hc; rw [hc] at h; exact absurd h (by decide)
    have h3 : c.front ≠ '\\' := by rintro hc; rw [hc] at h; exact absurd h (by decide)
    simp [quotedText, hs, h1, h2, h3]

theorem quotedText_glyph (h : c.rest = ch :: r) (hch : isQuotedGlyph ch) (fuel : Nat) :
    quotedText double (fuel + 1) c
      = (quotedText double (fuel + 1) c.next).map fun p => (ch :: p.1, p.2) := by
  simp only [quotedText, span_cons h hch]
  split
  · cases quotedText double fuel _ <;> rfl
  · split
    · cases quotedText double fuel _ <;> rfl
    · split
      · cases escape _ with
        | error => rfl
        | ok p =>
          change (quotedText double fuel p.2 >>= _) = Except.map _ (quotedText double fuel p.2 >>= _)
          cases quotedText double fuel p.2 <;> rfl
      · rfl

theorem Run.text_eq (h : Run double c text d) {fuel : Nat} (hf : c.rest.length < fuel) :
    quotedText double fuel c = .ok (text, d) := by
  induction h generalizing fuel with
  | blank h => exact quotedText_blank h fuel
  | @quote c h h1 =>
    obtain ⟨fuel, rfl⟩ : ∃ k, fuel = k + 1 := ⟨fuel - 1, by omega⟩
    have hs : c.span isQuotedGlyph = ([], c) := Cursor.span_none (by rw [h]; cases double <;> rfl)
    cases double with
    | false => simp [quotedText, hs, h, closingQuote, h1 rfl]
    | true => simp [quotedText, hs, h, closingQuote]
  | @glyph c d ch r cs h hch _ ih =>
    obtain ⟨fuel, rfl⟩ : ∃ k, fuel = k + 1 := ⟨fuel - 1, by omega⟩
    have hlen : c.next.rest.length < fuel + 1 := by
      simp only [Cursor.rest_next, List.length_drop]; omega
    rw [quotedText_glyph h hch, ih hlen]
    rfl
  | @mark c d ch r cs h hch _ ih =>
    obtain ⟨fuel, rfl⟩ : ∃ k, fuel = k + 1 := ⟨fuel - 1, by omega⟩
    have hlen : c.next.rest.length < fuel := by
      simp only [Cursor.rest_next, h, List.length_drop, List.length_cons] at hf ⊢; omega
    have hglyph : isQuotedGlyph ch = false := by
      simp only [standsWithin, Bool.or_eq_true, Bool.and_eq_true, beq_iff_eq] at hch
      rcases hch with ⟨_, rfl⟩ | ⟨_, rfl | rfl⟩ <;> rfl
    have hs : c.span isQuotedGlyph = ([], c) := Cursor.span_none (by rw [Cursor.front_eq h, hglyph])
    have hpair : (!double && ch == '\'' && c.peek 1 == '\'') = false := by
      cases double with
      | true => rfl
      | false =>
        simp only [standsWithin, Bool.false_and, Bool.false_or, Bool.not_false, Bool.true_and,
          Bool.or_eq_true, beq_iff_eq] at hch
        rcases hch with rfl | rfl <;> rfl
    simp only [standsWithin] at hch
    simp only [quotedText, hs, Cursor.front_eq h, hpair, hch, ih hlen]
    rfl
  | @pair c d r cs hd h _ ih =>
    subst hd
    obtain ⟨fuel, rfl⟩ : ∃ k, fuel = k + 1 := ⟨fuel - 1, by omega⟩
    have hlen : (c.skip 2).rest.length < fuel := by
      simp only [Cursor.rest_skip, h, List.length_drop, List.length_cons] at hf ⊢; omega
    have hs : c.span isQuotedGlyph = ([], c) := Cursor.span_none (by rw [Cursor.front_eq h]; rfl)
    have h1 : c.peek 1 = '\'' := by rw [Cursor.peek_succ h]; rfl
    simp only [quotedText, hs, Cursor.front_eq h, h1, ih hlen]
    rfl
  | @escaped c d e r here cs hd h he hd' _ ih =>
    subst hd
    obtain ⟨fuel, rfl⟩ : ∃ k, fuel = k + 1 := ⟨fuel - 1, by omega⟩
    have hlen : d.rest.length < fuel := by
      simp only [h, List.length_cons] at hf; omega
    have hs : c.span isQuotedGlyph = ([], c) := Cursor.span_none (by rw [Cursor.front_eq h]; rfl)
    simp only [quotedText, hs, Cursor.front_eq h, he]
    change (quotedText true fuel d >>= _) = _
    rw [ih hlen]
    rfl

theorem Quoted.rest_eq (h : Quoted double c cs d) (fuel : Nat) (hf : c.rest.length < fuel) :
    quotedRest double fuel c = .ok (cs, d) := by
  induction h generalizing fuel with
  | @close c d text hrun hd =>
    obtain ⟨fuel, rfl⟩ : ∃ k, fuel = k + 1 := ⟨fuel - 1, by omega⟩
    have htext : quotedText double c.fuel c = .ok (text, d) := hrun.text_eq (Nat.lt_succ_self _)
    have hq : (d.front == if double then '"' else '\'') = true := beq_iff_eq.2 hd
    simp only [quotedRest, htext]
    change (if (d.front == if double then '"' else '\'') then _ else _) = _
    rw [hq]
    rfl
  | @blanks c d e f text blanks more hrun hd hs hlen _ ih =>
    obtain ⟨fuel, rfl⟩ : ∃ k, fuel = k + 1 := ⟨fuel - 1, by omega⟩
    have htext : quotedText double c.fuel c = .ok (text, d) := hrun.text_eq (Nat.lt_succ_self _)
    have hq : (d.front == if double then '"' else '\'') = false := beq_eq_false_iff_ne.2 hd
    have hmore : quotedRest double fuel e = .ok (more, f) := ih fuel (by omega)
    simp only [quotedRest, htext]
    change (if (d.front == if double then '"' else '\'') then _ else _) = _
    rw [hq, hs]
    change (quotedRest double fuel e >>= _) = _
    rw [hmore]
    rfl

theorem Quoted.prepend (here : List Char) (hlen : d.rest.length ≤ c.rest.length)
    (hrun : ∀ text f, Run double d text f → Run double c (here ++ text) f)
    (h : Quoted double d cs e) : Quoted double c (here ++ cs) e := by
  cases h with
  | close h hq => exact .close (hrun _ _ h) hq
  | blanks h hq hs hless hmore =>
    rw [List.append_assoc, ← List.append_assoc, ← List.append_assoc]
    exact .blanks (hrun _ _ h) hq hs (by omega) hmore

section Blanks

variable {n : Nat} {x : Char} {bs : List Char}

theorem not_separates (h : separates ch = false) :
    ch ≠ '\x00' ∧ ch ≠ ' ' ∧ ch ≠ '\t' ∧ ch ≠ '\r' ∧ isBreak ch = false := by
  simpa [separates, and_assoc] using h

theorem not_blank (h : separates ch = false) : isSpaceOrTab ch = false := by
  obtain ⟨_, hs, ht, _, _⟩ := not_separates h
  simp [isSpaceOrTab, hs, ht]

theorem break_not_blank (h : isBreak ch) : isSpaceOrTab ch = false := by
  simp only [isBreak, Bool.or_eq_true, beq_iff_eq] at h
  rcases h with ((rfl | rfl) | rfl) | rfl <;> rfl

theorem spaces_blank (h : x ∈ spaces n) : isSpaceOrTab x := by
  rw [List.eq_of_mem_replicate h]
  rfl

theorem lineBreak_none (h : c.rest = ch :: r) (hch : separates ch = false) :
    c.lineBreak = none := by
  obtain ⟨_, _, _, hr, hb⟩ := not_separates hch
  exact Cursor.lineBreak_eq_none (by rwa [Cursor.front_eq h]) (by rwa [Cursor.front_eq h])

theorem quotedSpaces_blanks (h : c.rest = spaces n ++ ch :: r) (hch : separates ch = false) :
    quotedSpaces c = .ok (spaces n, c.skip n) := by
  have hspan : c.span isSpaceOrTab = (spaces n, c.skip n) := by
    rw [Cursor.span_eq h (fun _ => spaces_blank) (by rintro x ⟨⟩; exact not_blank hch),
      length_spaces]
  have hrest : (c.skip n).rest = ch :: r := by
    rw [Cursor.rest_skip, h, List.drop_left' (length_spaces _)]
  have hend := Cursor.atEnd_eq_false hrest (not_separates hch).1
  simp only [quotedSpaces, hspan, hend, lineBreak_none hrest hch]
  rfl

theorem Quoted.spaces (h : c.rest = spaces (n + 1) ++ ch :: r) (hch : separates ch = false)
    (hmore : Quoted double (c.skip (n + 1)) cs e) :
    Quoted double c (Yaml.spaces (n + 1) ++ cs) e := by
  have hfront : c.front = ' ' := Cursor.front_eq (by rw [h, spaces_succ]; rfl)
  refine .blanks (.blank (by rw [hfront]; rfl)) ?_ (quotedSpaces_blanks h hch) ?_ hmore
  · rw [hfront]
    cases double <;> decide
  · simp only [Cursor.rest_skip, h, List.length_drop, List.length_append, List.length_cons,
      length_spaces]
    omega

theorem quotedBreaks_eq (h : c.rest = bs ++ (spaces (n + 1) ++ ch :: r)) (hbs : ∀ b ∈ bs, isBreak b)
    (hch : separates ch = false) {fuel : Nat} (hf : bs.length < fuel) :
    quotedBreaks fuel c = .ok (bs.map Cursor.breakRead, c.skip (bs.length + (n + 1))) := by
  induction bs generalizing c fuel with
  | nil =>
    obtain ⟨fuel, rfl⟩ : ∃ k, fuel = k + 1 := ⟨fuel - 1, by omega⟩
    rw [List.nil_append] at h
    have hmark : c.atDocumentMark = false := by
      simp [Cursor.atDocumentMark, Cursor.startsWith, h, spaces_succ]
    have hdrop : c.dropWhile isSpaceOrTab = c.skip (n + 1) := by
      rw [Cursor.dropWhile_eq h (fun _ => spaces_blank) (by rintro x ⟨⟩; exact not_blank hch),
        length_spaces]
    have hrest : (c.skip (n + 1)).rest = ch :: r := by
      rw [Cursor.rest_skip, h, List.drop_left' (length_spaces _)]
    simp only [quotedBreaks, hmark, hdrop, lineBreak_none hrest hch, List.length_nil, Nat.zero_add]
    rfl
  | cons b bs ih =>
    obtain ⟨fuel, rfl⟩ : ∃ k, fuel = k + 1 := ⟨fuel - 1, by omega⟩
    have hb := hbs b List.mem_cons_self
    have hmark : c.atDocumentMark = false := by
      have : b ≠ '-' ∧ b ≠ '.' := by
        constructor <;> rintro rfl <;> exact absurd hb (by decide)
      simp [Cursor.atDocumentMark, Cursor.startsWith, h, this.1.symm, this.2.symm]
    have hdrop : c.dropWhile isSpaceOrTab = c :=
      Cursor.dropWhile_none (by rw [Cursor.front_eq h]; exact break_not_blank hb)
    have hmore : quotedBreaks fuel c.next
        = .ok (bs.map Cursor.breakRead, c.next.skip (bs.length + (n + 1))) :=
      ih (by rw [Cursor.rest_next, h]; rfl) (fun x hx => hbs x (List.mem_cons_of_mem _ hx))
        (by simp only [List.length_cons] at hf; omega)
    simp only [quotedBreaks, hmark, hdrop, Cursor.lineBreak_eq h hb, hmore, List.length_cons]
    rw [Nat.succ_add]
    rfl

theorem quotedSpaces_breaks (h : c.rest = ch :: (bs ++ (spaces (n + 1) ++ x :: r)))
    (hch : isBreak ch) (hbs : ∀ b ∈ bs, isBreak b) (hx : separates x = false) :
    quotedSpaces c = .ok (foldBreaks (Cursor.breakRead ch) (bs.map Cursor.breakRead),
      c.skip (bs.length + (n + 1) + 1)) := by
  have hspan : c.span isSpaceOrTab = ([], c) :=
    Cursor.span_none (by rw [Cursor.front_eq h]; exact break_not_blank hch)
  have hzero : ch ≠ '\x00' := by
    rintro rfl
    exact absurd hch (by decide)
  have hnext : c.next.rest = bs ++ (spaces (n + 1) ++ x :: r) := by rw [Cursor.rest_next, h]; rfl
  have hbreaks : quotedBreaks c.next.fuel c.next
      = .ok (bs.map Cursor.breakRead, c.next.skip (bs.length + (n + 1))) := by
    refine quotedBreaks_eq hnext hbs hx ?_
    rw [Cursor.fuel, hnext, List.length_append]
    omega
  simp only [quotedSpaces, hspan, Cursor.atEnd_eq_false h hzero, Cursor.lineBreak_eq h hch, hbreaks]
  rfl

theorem Quoted.breaks (h : c.rest = ch :: (bs ++ (Yaml.spaces (n + 1) ++ x :: r)))
    (hch : isBreak ch) (hbs : ∀ b ∈ bs, isBreak b) (hx : separates x = false)
    (hmore : Quoted double (c.skip (bs.length + (n + 1) + 1)) cs e) :
    Quoted double c (foldBreaks (Cursor.breakRead ch) (bs.map Cursor.breakRead) ++ cs) e := by
  have hsep : separates c.front := by
    rw [Cursor.front_eq h, separates, hch, Bool.or_true]
  refine .blanks (.blank hsep) ?_ (quotedSpaces_breaks h hch hbs hx) ?_ hmore
  · intro hq
    rw [hq] at hsep
    cases double <;> exact absurd hsep (by decide)
  · simp only [Cursor.rest_skip, h, List.length_drop, List.length_append, List.length_cons,
      length_spaces]
    omega

end Blanks

end BuildPipeline.Yaml
