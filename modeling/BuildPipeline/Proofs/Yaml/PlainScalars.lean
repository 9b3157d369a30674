import BuildPipeline.Proofs.Yaml.SingleQuotes

/-! Plain scalars: words and the spaces between them up to a colon or to the end of the line. -/

namespace BuildPipeline.Yaml

variable {c : Cursor} {ch : Char} {r cs ds w gap tail : List Char} {k fuel : Nat} {i : Int}

/-- What a text must be like that stands for itself; `allowsPlain` asks for more at its front. -/
structure Bare (cs : List Char) : Prop where
  glyphs : ∀ x ∈ cs, isPlainGlyph x ∧ isBreak x = false
  starts : ∃ x r, cs = x :: r ∧ x ≠ ' '
  ends : cs.getLast? ≠ some ' '
  indicators : hasIndicatorWithin none cs = false

/-- A text that does not go on with a gap: neither with blanks nor with a comment. -/
def Solid (r : List Char) : Prop :=
  ∀ x ∈ r.head?, x ≠ ' ' ∧ x ≠ '#' ∧ x ≠ '\r' ∧ x ≠ '\uFEFF' ∧ isBreak x = false

/-- What may stand behind the indentation of a line that is not blank and opens no document. -/
structure LineStart (r : List Char) : Prop where
  solid : Solid r
  mark : ¬"---".toList <+: r ∧ ¬"...".toList <+: r

theorem Solid.at (h : Solid r) (hc : c.rest = r) :
    c.front ≠ ' ' ∧ c.front ≠ '#' ∧ c.front ≠ '\r' ∧ c.front ≠ '\uFEFF'
      ∧ isBreak c.front = false := by
  cases r with
  | nil => rw [Cursor.front_nil hc]; decide
  | cons x r => rw [Cursor.front_eq hc]; exact h x rfl

theorem Solid.lineBreak (h : Solid r) (hc : c.rest = r) : c.lineBreak = none :=
  Cursor.lineBreak_eq_none (h.at hc).2.2.1 (h.at hc).2.2.2.2

theorem bare_of_allowsPlain (h : allowsPlain cs) (hcs : cs ≠ []) : Bare cs := by
  obtain ⟨x, r, rfl⟩ := List.exists_cons_of_ne_nil hcs
  simp only [allowsPlain, startsOrEnds, isMultiline, hasSpecial, List.isEmpty_cons, Bool.false_or,
    Bool.not_eq_true', Bool.or_eq_false_iff, List.any_eq_false, Bool.not_eq_true'] at h
  obtain ⟨⟨⟨⟨⟨hs, he⟩, hb⟩, hg⟩, -⟩, hi⟩ := h
  refine ⟨fun y hy => ⟨?_, ?_⟩, ⟨x, r, rfl, ?_⟩, ?_, hi⟩
  · simpa using hg y hy
  · simpa using hb y hy
  · simpa using hs
  · intro hl
    rw [hl] at he
    exact absurd he (by decide)

theorem hasIndicatorInFront_of_allowsPlain (h : allowsPlain cs) (hcs : cs ≠ []) :
    hasIndicatorInFront cs = false := by
  obtain ⟨x, r, rfl⟩ := List.exists_cons_of_ne_nil hcs
  simp only [allowsPlain, List.isEmpty_cons, Bool.false_or, Bool.not_eq_true',
    Bool.or_eq_false_iff] at h
  exact h.1.2

theorem Bare.not_hash (h : Bare (ch :: cs)) : ch ≠ '#' := by
  rintro rfl
  have := h.indicators
  simp [hasIndicatorWithin] at this

theorem Bare.takesColumn (h : Bare cs) : ∀ x ∈ cs, takesColumn x := by
  intro x hx
  obtain ⟨hg, hb⟩ := h.glyphs x hx
  have hr : x ≠ '\r' := by rintro rfl; exact absurd hg (by decide)
  have hm : x ≠ '\uFEFF' := by rintro rfl; exact absurd hg (by decide)
  simp [Yaml.takesColumn, hb, hr, hm]

theorem hasIndicatorWithin_space (cs : List Char) :
    hasIndicatorWithin (some ' ') cs = hasIndicatorWithin none cs := by
  cases cs <;> rfl

theorem hasIndicatorWithin_of_append {p : Option Char} (hw : w ≠ [])
    (h : hasIndicatorWithin p (w ++ ds) = false) :
    hasIndicatorWithin w.getLast? ds = false := by
  induction w generalizing p with
  | nil => exact absurd rfl hw
  | cons x w ih =>
    simp only [List.cons_append, hasIndicatorWithin, Bool.or_eq_false_iff] at h
    cases w with
    | nil => exact h.2
    | cons y w =>
      rw [List.getLast?_cons_cons]
      exact ih (by simp) h.2

/-- A bare text is one word, or a word, spaces and a bare text. -/
theorem Bare.split (h : Bare cs) :
    ∃ w, w ≠ [] ∧ (∀ x ∈ w, separates x = false) ∧
      (cs = w ∨ ∃ k ds, cs = w ++ (spaces (k + 1) ++ ds) ∧ Bare ds) := by
  obtain ⟨w, ds, rfl, hw, hds⟩ := exists_span (!separates ·) cs
  have hw : ∀ x ∈ w, separates x = false := fun x hx => by simpa using hw x hx
  have hsep : ∀ x ∈ w ++ ds, x ≠ ' ' → separates x = false := fun x hx hs =>
    plain_not_separates (h.glyphs x hx).1 hs (h.glyphs x hx).2
  have hne : w ≠ [] := by
    rintro rfl
    obtain ⟨x, r, hx, hs⟩ := h.starts
    rw [List.nil_append] at hx
    have := hds x (by rw [hx]; rfl)
    rw [hsep x (by rw [List.nil_append, hx]; exact List.mem_cons_self) hs] at this
    exact absurd this (by decide)
  refine ⟨w, hne, hw, ?_⟩
  cases ds with
  | nil => exact .inl (List.append_nil w)
  | cons y ds =>
    refine .inr ?_
    have hy : y = ' ' := by
      refine Decidable.byContradiction fun hs => ?_
      have := hds y rfl
      rw [hsep y (by simp) hs] at this
      exact absurd this (by decide)
    subst hy
    obtain ⟨bs, es, rfl, hbs, hes⟩ := exists_span (· == ' ') ds
    obtain ⟨k, rfl⟩ : ∃ k, bs = spaces k :=
      ⟨bs.length, List.eq_replicate_iff.2 ⟨rfl, by simpa using hbs⟩⟩
    have heq : w ++ ' ' :: (spaces k ++ es) = w ++ (spaces (k + 1) ++ es) := rfl
    rw [heq] at h
    have hlast : (spaces (k + 1)).getLast? = some ' ' := by
      simp [spaces, List.getLast?_replicate]
    have hne' : es ≠ [] := by
      rintro rfl
      apply h.ends
      rw [List.append_nil, List.getLast?_append, hlast]
      rfl
    obtain ⟨z, es, rfl⟩ := List.exists_cons_of_ne_nil hne'
    refine ⟨k, z :: es, heq, fun x hx => h.glyphs x (by simp [List.mem_cons.1 hx]),
      ⟨z, es, rfl, ?_⟩, ?_, ?_⟩
    · simpa using hes z rfl
    · have := h.ends
      simpa [List.getLast?_append] using this
    · have h1 := hasIndicatorWithin_of_append hne h.indicators
      have h2 := hasIndicatorWithin_of_append (by simp [spaces]) h1
      rwa [hlast, hasIndicatorWithin_space] at h2

theorem plainRun_eq {p : Option Char} (h : hasIndicatorWithin p (w ++ ds) = false)
    (hw : ∀ x ∈ w, separates x = false) (htail : plainRun false (ds ++ tail) = []) :
    plainRun false (w ++ (ds ++ tail)) = w := by
  induction w generalizing p with
  | nil => exact htail
  | cons x w ih =>
    simp only [List.cons_append, hasIndicatorWithin, Bool.or_eq_false_iff] at h
    obtain ⟨⟨hcolon, -⟩, hrest⟩ := h
    have hx : (x == ':' && separates ((w ++ (ds ++ tail)).headD '\x00')) = false := by
      rw [← List.append_assoc]
      cases hwd : w ++ ds with
      | nil =>
        rw [hwd] at hcolon
        have : (x == ':') = false := by simpa using hcolon
        rw [this, Bool.false_and]
      | cons y r =>
        rw [hwd] at hcolon
        simpa using hcolon
    rw [List.cons_append, plainRun]
    simp only [hw x List.mem_cons_self, Bool.false_and, Bool.or_false, Bool.false_or]
    rw [hx, ih hrest fun y hy => hw y (List.mem_cons_of_mem _ hy)]
    rfl

theorem plainGap_spaces (hc : c.rest = spaces k ++ ch :: r) (hs : ch ≠ ' ') (hr : ch ≠ '\r')
    (hb : isBreak ch = false) : plainGap c = ⟨spaces k, false, c.skip k⟩ := by
  have hspan : c.span (· == ' ') = (spaces k, c.skip k) := by
    rw [Cursor.span_eq hc (fun x hx => by simp [List.eq_of_mem_replicate hx])
      (by rintro x ⟨⟩; simpa using hs), length_spaces]
  have hrest : (c.skip k).rest = ch :: r := by
    rw [Cursor.rest_skip, hc, List.drop_left' (length_spaces _)]
  have hbreak : (c.skip k).lineBreak = none :=
    Cursor.lineBreak_eq_none (by rwa [Cursor.front_eq hrest]) (by rwa [Cursor.front_eq hrest])
  simp only [plainGap, hspan, hbreak]

theorem plainBreaks_spaces (hc : c.rest = spaces k ++ r) (hr : LineStart r) (hf : k < fuel) :
    plainBreaks fuel c = (some [], c.skip k) := by
  induction k generalizing c fuel with
  | zero =>
    obtain ⟨fuel, rfl⟩ : ∃ n, fuel = n + 1 := ⟨fuel - 1, by omega⟩
    obtain ⟨hs, -, -, -, -⟩ := hr.solid.at hc
    simp only [plainBreaks, hr.solid.lineBreak hc, beq_iff_eq, hs]
    rfl
  | succ k ih =>
    obtain ⟨fuel, rfl⟩ : ∃ n, fuel = n + 1 := ⟨fuel - 1, by omega⟩
    have hnext : c.next.rest = spaces k ++ r := by rw [Cursor.rest_next, hc, spaces_succ]; rfl
    have hfront : c.front = ' ' := Cursor.front_eq (by rw [hc, spaces_succ]; rfl)
    rw [plainBreaks, hfront, if_pos (by rfl), ih hnext (by omega)]
    rfl

theorem startsWith_eq_false {s : String} (h : ¬s.toList <+: c.rest) : c.startsWith s = false := by
  rwa [Cursor.startsWith, ← Bool.not_eq_true, List.isPrefixOf_iff_prefix]

theorem atDocumentMark_eq_false (h : ¬"---".toList <+: c.rest ∧ ¬"...".toList <+: c.rest) :
    c.atDocumentMark = false := by
  simp only [Cursor.atDocumentMark, startsWith_eq_false h.1, startsWith_eq_false h.2]
  rfl

theorem plainGap_newline (hc : c.rest = '\n' :: (spaces k ++ r)) (hr : LineStart r) :
    plainGap c = ⟨[' '], true, c.skip (k + 1)⟩ := by
  have hnext : c.next.rest = spaces k ++ r := by rw [Cursor.rest_next, hc]; rfl
  have hspan : c.span (· == ' ') = ([], c) := Cursor.span_none (by rw [Cursor.front_eq hc]; rfl)
  have hbreak : c.lineBreak = some ('\n', c.next) := Cursor.lineBreak_eq hc rfl
  have hmark : c.next.atDocumentMark = false := by
    refine atDocumentMark_eq_false ?_
    rw [hnext]
    cases k with
    | zero => exact hr.mark
    | succ k => rw [spaces_succ]; simp
  have hfuel : k < c.next.fuel := by
    rw [Cursor.fuel, hnext, List.length_append, length_spaces]
    omega
  simp only [plainGap, hspan, hbreak, hmark, plainBreaks_spaces hnext hr hfuel]
  rfl

/-- Whether what lies behind a part of a plain scalar is not followed by a further part. -/
def Gap.stops (i : Int) (g : Gap) : Bool :=
  g.text.isEmpty || g.cursor.front == '#' || g.cursor.column < i

theorem plainRest_last {i : Int} {broke : Bool} (h : c.front ≠ '#') (hne : w ≠ [])
    (hrun : plainRun false c.rest = w) (hstop : (plainGap (c.skip w.length)).stops i) :
    plainRest false i (fuel + 1) gap broke c
      = (gap ++ w, (plainGap (c.skip w.length)).broke, (plainGap (c.skip w.length)).cursor) := by
  have hgo : (c.front == '#' || w.isEmpty) = false := by simp [h, hne]
  rw [Gap.stops] at hstop
  simp only [plainRest, hrun, hgo, Bool.not_false, Bool.true_and, hstop]
  rfl

theorem plainRest_more {i : Int} {broke : Bool} {g : Gap} {p : List Char × Bool × Cursor}
    (h : c.front ≠ '#') (hne : w ≠ []) (hrun : plainRun false c.rest = w)
    (hg : plainGap (c.skip w.length) = g) (hstop : g.stops i = false)
    (hmore : plainRest false i fuel g.text g.broke g.cursor = p) :
    plainRest false i (fuel + 1) gap broke c = (gap ++ w ++ p.1, p.2) := by
  have hgo : (c.front == '#' || w.isEmpty) = false := by simp [h, hne]
  rw [Gap.stops] at hstop
  simp only [plainRest, hrun, hgo, hg, Bool.not_false, Bool.true_and, hstop, hmore]
  rfl

theorem plainRest_eq {gap : List Char} {i : Int} {broke : Bool} (h : Bare cs)
    (hc : c.rest = cs ++ tail) (htail : plainRun false tail = []) (hi : i ≤ c.column + 1)
    (hstop : (plainGap (c.skip cs.length)).stops i) (hf : cs.length < fuel) :
    plainRest false i fuel gap broke c
      = (gap ++ cs, (plainGap (c.skip cs.length)).broke, (plainGap (c.skip cs.length)).cursor) := by
  induction hk : cs.length using Nat.strongRecOn generalizing c cs gap broke fuel with
  | ind n ih =>
    subst hk
    obtain ⟨fuel, rfl⟩ : ∃ n, fuel = n + 1 := ⟨fuel - 1, by omega⟩
    have hhash : c.front ≠ '#' := by
      obtain ⟨x, r, rfl, -⟩ := h.starts
      rw [Cursor.front_eq hc]
      exact h.not_hash
    obtain ⟨w, hne, hw, rfl | ⟨k, ds, rfl, hds⟩⟩ := h.split
    · have hrun : plainRun false c.rest = cs := by
        rw [hc]
        have hcs : hasIndicatorWithin none (cs ++ []) = false := by
          rw [List.append_nil]
          exact h.indicators
        exact plainRun_eq hcs hw htail
      exact plainRest_last hhash hne hrun hstop
    · obtain ⟨y, es, rfl, hy⟩ := hds.starts
      have hspaces : plainRun false (spaces (k + 1) ++ (y :: es) ++ tail) = [] := by
        simp [spaces_succ, plainRun, separates]
      have hrun : plainRun false c.rest = w := by
        rw [hc, List.append_assoc]
        exact plainRun_eq h.indicators hw hspaces
      have hrest : (c.skip w.length).rest = spaces (k + 1) ++ y :: (es ++ tail) := by
        rw [Cursor.rest_skip, hc, List.append_assoc, List.drop_left, List.append_assoc]
        rfl
      have hgap := plainGap_spaces hrest hy (by
        rintro rfl
        exact absurd (hds.glyphs _ List.mem_cons_self).1 (by decide))
        (hds.glyphs _ List.mem_cons_self).2
      have hcol : ((c.skip w.length).skip (k + 1)).column = c.column + w.length + (k + 1) := by
        have hcols : ∀ x ∈ w ++ spaces (k + 1), takesColumn x := fun x hx =>
          h.takesColumn x (by
            rw [← List.append_assoc]
            exact List.mem_append_left _ hx)
        have := Cursor.skip_eq (r := y :: es ++ tail) (by rw [hc]; simp) hcols
        rw [List.length_append, length_spaces, Cursor.skip_add] at this
        rw [this, Nat.add_assoc]
      have hlast : c.skip (w ++ (spaces (k + 1) ++ y :: es)).length
          = ((c.skip w.length).skip (k + 1)).skip (y :: es).length := by
        rw [List.length_append, List.length_append, length_spaces, Cursor.skip_add,
          Cursor.skip_add]
      have hmid : ((c.skip w.length).skip (k + 1)).rest = y :: es ++ tail := by
        rw [Cursor.rest_skip, hrest, List.drop_left' (length_spaces _)]
        rfl
      have hgo : Gap.stops i ⟨spaces (k + 1), false, (c.skip w.length).skip (k + 1)⟩ = false := by
        have hle : ¬(((c.skip w.length).skip (k + 1)).column : Int) < i := by rw [hcol]; omega
        simp [Gap.stops, spaces_succ, Cursor.front_eq hmid, hds.not_hash, hle]
      rw [List.length_append, List.length_append, length_spaces] at hf
      rw [hlast] at hstop ⊢
      generalize (c.skip w.length).skip (k + 1) = e at *
      have hmore : plainRest false i fuel (spaces (k + 1)) false e
          = (spaces (k + 1) ++ y :: es, (plainGap (e.skip (y :: es).length)).broke,
            (plainGap (e.skip (y :: es).length)).cursor) :=
        ih (y :: es).length (by rw [List.length_append, List.length_append, length_spaces]; omega)
          hds hmid (by rw [hcol]; omega) hstop (by omega) rfl
      rw [plainRest_more hhash hne hrun hgap hgo hmore, List.append_assoc]

theorem plainScalar_eq {i : Int} (h : Bare cs) (hc : c.rest = cs ++ tail)
    (htail : plainRun false tail = []) (hi : i ≤ c.column + 1)
    (hstop : (plainGap (c.skip cs.length)).stops i) :
    plainScalar false i c
      = (cs, (plainGap (c.skip cs.length)).broke, (plainGap (c.skip cs.length)).cursor) := by
  have hf : cs.length < c.fuel := by
    rw [Cursor.fuel, hc, List.length_append]
    omega
  exact plainRest_eq h hc htail hi hstop hf

/-- A bare key stops at its colon. -/
theorem plainScalar_key {i : Int} (h : Bare cs) (hc : c.rest = cs ++ ':' :: r)
    (hr : ∃ x r', r = x :: r' ∧ separates x) (hi : i ≤ c.column + 1) :
    plainScalar false i c = (cs, false, c.skip cs.length) := by
  obtain ⟨x, r', rfl, hx⟩ := hr
  have hgap : plainGap (c.skip cs.length) = ⟨[], false, c.skip cs.length⟩ :=
    plainGap_spaces (k := 0) (r := x :: r') (by rw [Cursor.rest_skip, hc, List.drop_left]; rfl)
      (by decide) (by decide) rfl
  rw [plainScalar_eq h hc (by simp [plainRun, hx]) hi (by rw [hgap]; rfl), hgap]

/-- A bare value stops behind its line. -/
theorem plainScalar_value {i : Int} (h : Bare cs) (hc : c.rest = cs ++ '\n' :: (spaces k ++ r))
    (hr : LineStart r) (hi : i ≤ c.column + 1) (hk : k < i) :
    plainScalar false i c = (cs, true, c.skip (cs.length + (k + 1))) := by
  have hrest : (c.skip cs.length).rest = '\n' :: (spaces k ++ r) := by
    rw [Cursor.rest_skip, hc, List.drop_left]
  have hcol : ((c.skip cs.length).skip (k + 1)).column = k := by
    rw [Cursor.skip_newline hrest]
  have hstop : (plainGap (c.skip cs.length)).stops i := by
    rw [plainGap_newline hrest hr, Gap.stops, hcol]
    simp [hk]
  rw [plainScalar_eq h hc rfl hi hstop, plainGap_newline hrest hr, ← Cursor.skip_add]

end BuildPipeline.Yaml
