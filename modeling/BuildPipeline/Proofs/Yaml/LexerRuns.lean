import BuildPipeline.Proofs.Yaml.LexerLaws

/-!
Runs of the lexer over what is written. `At` says what comes of a lexer that stands at a column in
front of some text, and has one law for each piece of a text: marks, gaps, scalars, brackets, the
end. Each law asks what comes of the lexer behind its piece.
-/

namespace BuildPipeline.Yaml

open Cursor (skip_newline)
open Lexer (ready opening around)

variable {o : Option (List Token)} {s t u : Lexer} {c : Cursor} {ch : Char} {r w : List Char}
  {k : Nat} {n i m : Int} {outer is : List Int} {ts : List Token} {allow : Bool}


/-- What comes of a lexer with no key in waiting, wherever it stands in the text. -/
def At (o : Option (List Token)) (allow : Bool) (m : Nat) (r : List Char) (n : Int)
    (outer : List Int) (ts : List Token) : Prop :=
  ∀ c : Cursor, c.rest = r → c.column = m → Yields o (ready c n outer allow ts)

theorem not_mem_opening {t t' : Token} {m : Nat} (ht : .streamEnd ≠ t) (ht' : .streamEnd ≠ t')
    (hts : .streamEnd ∉ ts) : .streamEnd ∉ ts ++ opening n m t ++ [t'] := by
  rw [opening]
  split <;> simp [hts, ht, ht']

section Marks

variable {x : Char} {m : Nat} {n' : Int} {outer' : List Int} {ts' : List Token}

theorem next_mark (h : c.rest = ch :: r) (hch : takesColumn ch) (hm : c.column = m) :
    c.next.rest = r ∧ c.next.column = m + 1 := by
  rw [Cursor.next_eq h hch, hm]
  exact ⟨rfl, rfl⟩

/-- A mark that is a token by itself, with the collection that it may open. -/
theorem At.mark (hch : takesColumn ch) (hts : .streamEnd ∉ ts → .streamEnd ∉ ts')
    (hfetch : ∀ c : Cursor, c.rest = ch :: r → c.column = m →
      (ready c n outer allow ts).fetch = .ok (ready c.next n' outer' true ts'))
    (h : At o true (m + 1) r n' outer' ts') : At o allow m (ch :: r) n outer ts := by
  intro c hc hm
  obtain ⟨hrest, hcol⟩ := next_mark hc hch hm
  refine Yields.step (hfetch c hc hm) (Lexer.dropStale_eq rfl) hts rfl ?_ (h c.next hrest hcol)
  simp [ready, hc]

theorem solid_cons (h : ch ≠ ' ' ∧ ch ≠ '#' ∧ ch ≠ '\r' ∧ ch ≠ '\uFEFF' ∧ isBreak ch = false) :
    Solid (ch :: r) := by
  rintro y ⟨⟩
  exact h

theorem At.dash (hx : separates x) (hn : n ≤ m)
    (h : At o true (m + 1) (x :: r) m (around n m outer)
      (ts ++ opening n m .blockSequenceStart ++ [.blockEntry])) :
    At o true m ('-' :: x :: r) n outer ts := by
  refine .mark rfl (not_mem_opening (by decide) (by decide)) (fun c hc hm => ?_) h
  rw [Lexer.fetch_ready hc (solid_cons (by decide)) (by omega), Lexer.fetchHere_dash hc hx,
    Lexer.fetchBlockEntry, Lexer.openBlock_ready hm hn]
  rfl

theorem At.question (hx : separates x) (hn : n ≤ m)
    (h : At o true (m + 1) (x :: r) m (around n m outer)
      (ts ++ opening n m .blockMappingStart ++ [.key])) :
    At o true m ('?' :: x :: r) n outer ts := by
  refine .mark rfl (not_mem_opening (by decide) (by decide)) (fun c hc hm => ?_) h
  rw [Lexer.fetch_ready hc (solid_cons (by decide)) (by omega), Lexer.fetchHere_question hc hx,
    Lexer.fetchKey, Lexer.openBlock_ready hm hn]
  rfl

theorem At.colon (hx : separates x) (hn : n ≤ m)
    (h : At o true (m + 1) (x :: r) m (around n m outer)
      (ts ++ opening n m .blockMappingStart ++ [.value])) :
    At o true m (':' :: x :: r) n outer ts := by
  refine .mark rfl (not_mem_opening (by decide) (by decide)) (fun c hc hm => ?_) h
  rw [Lexer.fetch_ready hc (solid_cons (by decide)) (by omega),
    Lexer.fetchHere_colon (s := ready c n outer true ts) hc hx]
  change ((ready c n outer true ts).openBlock .blockMappingStart >>= _) = _
  rw [Lexer.openBlock_ready hm hn]
  rfl

end Marks

section Gaps

variable {m : Nat}

theorem At.space (hr : Solid r) (h : At o allow (m + 1) r n outer ts) :
    At o allow m (' ' :: r) n outer ts := by
  intro c hc hm
  obtain ⟨hrest, hcol⟩ := next_mark hc rfl hm
  refine Yields.congr (t := ready c.next n outer allow ts) ?_ id ?_ (h c.next hrest hcol)
  · have h1 : (ready c n outer allow ts).toNextToken = ready c.next n outer allow ts :=
      Lexer.toNextToken_solid (k := 1) hc hr
    have h2 : (ready c.next n outer allow ts).toNextToken = ready c.next n outer allow ts :=
      Lexer.toNextToken_solid (k := 0) hrest hr
    rw [Lexer.fetch, Lexer.fetch, h1, h2]
  · simp [ready]

/-- Keys in waiting that need not be keys are given up at the end of their line. -/
theorem Yields.newline {keys : List (Int × PendingKey)}
    (hc : c.rest = '\n' :: (spaces k ++ r)) (hr : Solid r)
    (hkeys : ∀ e ∈ keys, e.2.required = false ∧ e.2.line ≤ c.line) (h : At o true k r n outer ts) :
    Yields o ⟨c, 0, n, outer, allow, keys, ts⟩ := by
  have hrest : (c.skip (k + 1)).rest = r := by rw [skip_newline hc]
  have hcol : (c.skip (k + 1)).column = k := by rw [skip_newline hc]
  refine Yields.congr (t := ready (c.skip (k + 1)) n outer true ts) ?_ id ?_ (h _ hrest hcol)
  · have h1 := Lexer.toNextToken_newline (s := ⟨c, 0, n, outer, allow, keys, ts⟩) hc hr rfl
    have h2 : (ready (c.skip (k + 1)) n outer true ts).toNextToken
        = ready (c.skip (k + 1)) n outer true ts := Lexer.toNextToken_solid (k := 0) hrest hr
    have hstale : ∀ e ∈ keys, Lexer.isStale
        ⟨c.skip (k + 1), 0, n, outer, true, keys, ts⟩ e.2 := fun e he => by
      have hline : (c.skip (k + 1)).line = c.line + 1 := by rw [skip_newline hc]
      have := (hkeys e he).2
      simp only [Lexer.isStale, hline, Bool.or_eq_true, bne_iff_ne]
      exact .inl (by omega)
    have hdrop : Lexer.dropStale ⟨c.skip (k + 1), 0, n, outer, true, keys, ts⟩
        = .ok (ready (c.skip (k + 1)) n outer true ts) := by
      rw [Lexer.dropStale, if_neg, List.filter_eq_nil_iff.2]
      · rfl
      · intro e he
        simp [hstale e he]
      · simp only [List.any_eq_true, Bool.and_eq_true, not_exists, not_and]
        intro e he _
        simp [(hkeys e he).1]
    rw [Lexer.fetch, Lexer.fetch, h1, h2, hdrop]
    rfl
  · simp [ready]

theorem At.newline (hr : Solid r) (h : At o true k r n outer ts) :
    At o allow m ('\n' :: (spaces k ++ r)) n outer ts := by
  intro c hc _
  exact Yields.newline hc hr (by simp) h

/-- A line that is set in less closes the collection that is open. -/
theorem At.close (hr : Solid r) (hk : (k : Int) < n)
    (h : At o true k r i is (ts ++ [.blockEnd])) : At o true k r n (i :: is) ts := by
  intro c hc hm
  refine Yields.congr (t := ready c i is true (ts ++ [.blockEnd])) ?_ (by simp [ready])
    (Nat.le_refl _) (h c hc hm)
  have h1 : (ready c n (i :: is) true ts).toNextToken = ready c n (i :: is) true ts :=
    Lexer.toNextToken_solid (k := 0) hc hr
  have h2 : (ready c i is true (ts ++ [.blockEnd])).toNextToken
      = ready c i is true (ts ++ [.blockEnd]) := Lexer.toNextToken_solid (k := 0) hc hr
  have hlt : (ready c n (i :: is) true ts).column < n := by
    change (c.column : Int) < n
    omega
  rw [Lexer.fetch_eq (by rw [h1]; exact Lexer.dropStale_eq rfl),
    Lexer.fetch_eq (by rw [h2]; exact Lexer.dropStale_eq rfl), Lexer.unwind_cons rfl rfl hlt]
  rfl

end Gaps

section Scalars

variable {x : Char} {m : Nat} {text : List Char} {plain broke : Bool} {d : Cursor}

/-- The key that a token at the cursor may be the first of. -/
def pending (c : Cursor) (n : Int) (allow : Bool) (ts : List Token) : List (Int × PendingKey) :=
  if allow then [(0, ⟨ts.length, n == c.column, c.index, c.line, c.column⟩)] else []

namespace Lexer

theorem ok_bind {α β : Type} (a : α) (f : α → Except ReadError β) : (.ok a >>= f) = f a := rfl

theorem saveKey_ready : (ready c n outer allow ts).saveKey
    = .ok ⟨c, 0, n, outer, allow, pending c n allow ts, ts⟩ := by
  cases allow <;> rfl

theorem fetchKeyed_ready {t : Token} {read : Cursor → Except ReadError (Token × Cursor)}
    (h : read c = .ok (t, d)) : (ready c n outer allow ts).fetchKeyed read
      = .ok ⟨d, 0, n, outer, false, pending c n allow ts, ts ++ [t]⟩ := by
  rw [fetchKeyed, saveKey_ready]
  change (read c >>= _) = _
  rw [h]
  rfl

theorem fetchPlain_ready (h : plainScalar false (n + 1) c = (text, broke, d)) :
    (ready c n outer allow ts).fetchPlain
      = .ok ⟨d, 0, n, outer, broke, pending c n allow ts, ts ++ [.scalar text true]⟩ := by
  have hin : (⟨c, 0, n, outer, allow, pending c n allow ts, ts⟩ : Lexer).inFlow = false := rfl
  rw [fetchPlain, saveKey_ready, ok_bind]
  dsimp only
  rw [hin, h]
  rfl

end Lexer

/-- A text that is read as one scalar in front of a colon and in front of the end of its line. -/
structure Scans (w text : List Char) (plain : Bool) : Prop where
  solid : ∀ r, Solid (w ++ r)
  some : w ≠ []
  key : ∀ {c : Cursor} {n : Int} {outer allow ts x r},
    c.rest = w ++ ':' :: x :: r → separates x → n ≤ c.column →
    (ready c n outer allow ts).fetch
      = .ok ⟨c.skip w.length, 0, n, outer, false, pending c n allow ts, ts ++ [.scalar text plain]⟩
  value : ∀ {c : Cursor} {n : Int} {outer allow ts k r},
    c.rest = w ++ '\n' :: (spaces k ++ r) → LineStart r → (k : Int) ≤ n → n ≤ c.column →
    (ready c n outer allow ts).fetch
        = .ok ⟨c.skip w.length, 0, n, outer, false, pending c n allow ts, ts ++ [.scalar text plain]⟩
      ∨ (ready c n outer allow ts).fetch
        = .ok ⟨c.skip (w.length + (k + 1)), 0, n, outer, true, pending c n allow ts,
            ts ++ [.scalar text plain]⟩

theorem scans_quoted {double : Bool} {q : Char} (hw : ∃ v, w = q :: v) (hq : q = '\'' ∨ q = '"')
    (hfetch : ∀ {s : Lexer} {r}, s.cursor.rest = q :: r → s.fetchHere = s.fetchKeyed fun c =>
      return ((← quotedScalar double c).map (Token.scalar · false) id))
    (hread : ∀ {c : Cursor} {y r}, c.rest = w ++ y :: r → y ≠ '\'' →
      quotedScalar double c = .ok (text, c.skip w.length)) : Scans w text false := by
  obtain ⟨v, rfl⟩ := hw
  have hsolid : ∀ r, Solid (q :: v ++ r) := fun r => by
    rcases hq with rfl | rfl <;> exact solid_cons (by decide)
  have hgo : ∀ {c : Cursor} {n : Int} {outer allow ts y r}, c.rest = q :: v ++ y :: r → y ≠ '\'' →
      n ≤ c.column → (ready c n outer allow ts).fetch = .ok ⟨c.skip (q :: v).length, 0, n, outer,
        false, pending c n allow ts, ts ++ [.scalar text false]⟩ := by
    intro c n outer allow ts y r hc hy hn
    rw [Lexer.fetch_ready hc (hsolid _) hn, hfetch (s := ready c n outer allow ts) hc]
    refine Lexer.fetchKeyed_ready ?_
    rw [hread hc hy]
    rfl
  exact ⟨hsolid, by simp, fun hc _ hn => hgo hc (by decide) hn,
    fun hc _ _ hn => .inl (hgo hc (by decide) hn)⟩

theorem scans_single {i : Nat} {cs : List Char} (h : allowsSingle cs) :
    Scans (singleQuoted (i + 1) cs) (echo false cs) false :=
  scans_quoted ⟨_, rfl⟩ (.inl rfl) Lexer.fetchHere_single
    fun hc hy => quotedScalar_single hc (by rintro z ⟨⟩; exact hy) h

theorem scans_double (cs : List Char) : Scans (doubleQuoted cs) cs false :=
  scans_quoted ⟨_, rfl⟩ (.inr rfl) Lexer.fetchHere_double fun hc _ => quotedScalar_double hc

theorem scans_plain {cs : List Char} (h : allowsPlain cs) (hne : cs ≠ []) : Scans cs cs true := by
  have hbare := bare_of_allowsPlain h hne
  have hsolid : ∀ r, Solid (cs ++ r) := by
    obtain ⟨y, v, rfl, hy⟩ := hbare.starts
    intro r
    have ht := hbare.takesColumn y List.mem_cons_self
    obtain ⟨hg, hb⟩ := hbare.glyphs y List.mem_cons_self
    refine solid_cons ⟨hy, hbare.not_hash, ?_, ?_, hb⟩
    · rintro rfl
      exact absurd hg (by decide)
    · rintro rfl
      exact absurd hg (by decide)
  refine ⟨hsolid, hne, ?_, ?_⟩
  · intro c n outer allow ts x r hc hx hn
    rw [Lexer.fetch_ready hc (hsolid _) hn,
      Lexer.fetchHere_plain (s := ready c n outer allow ts) rfl hc h hne (.inl rfl)]
    exact Lexer.fetchPlain_ready (plainScalar_key hbare hc ⟨x, r, rfl, hx⟩ (by omega))
  · intro c n outer allow ts k r hc hr hk hn
    rw [Lexer.fetch_ready hc (hsolid _) hn,
      Lexer.fetchHere_plain (s := ready c n outer allow ts) rfl hc h hne (.inr rfl)]
    exact .inr (Lexer.fetchPlain_ready (plainScalar_value hbare hc hr (by omega) (by omega)))

theorem mem_pending {e : Int × PendingKey} (h : e ∈ pending c n allow ts) :
    e = (0, ⟨ts.length, n == c.column, c.index, c.line, c.column⟩) := by
  rw [pending] at h
  split at h
  · exact List.mem_singleton.1 h
  · cases h

theorem Lexer.dropStale_free (h : ∀ e ∈ s.keys, e.2.required = false) :
    s.dropStale = .ok { s with keys := s.keys.filter (!s.isStale ·.2) } := by
  rw [dropStale, if_neg]
  simp only [List.any_eq_true, Bool.and_eq_true, not_exists, not_and]
  intro e he _
  simp [h e he]

/-- A scalar in front of the end of its line, set in further than the collection around it. -/
theorem At.value (hs : Scans w text plain) (hr : LineStart r) (hk : (k : Int) ≤ n) (hn : n < m)
    (h : At o true k r n outer (ts ++ [.scalar text plain])) :
    At o allow m (w ++ '\n' :: (spaces k ++ r)) n outer ts := by
  intro c hc hm
  have hfree : ∀ e ∈ pending c n allow ts, e.2.required = false := fun e he => by
    rw [mem_pending he]
    exact beq_eq_false_iff_ne.2 (by omega)
  have hend : .streamEnd ∉ ts → .streamEnd ∉ ts ++ [.scalar text plain] := by simp
  have hrest : (c.skip w.length).rest = '\n' :: (spaces k ++ r) := by
    rw [Cursor.rest_skip, hc, List.drop_left]
  have hlen : 0 < w.length := List.length_pos_iff.2 hs.some
  rcases hs.value hc hr hk (by omega) with hf | hf
  · refine Yields.step hf (Lexer.dropStale_free hfree) hend rfl ?_ ?_
    · simp only [ready, hrest, hc, List.length_append, List.length_cons]
      omega
    · refine Yields.newline hrest hr.solid (fun e he => ?_) h
      have he := (List.mem_filter.1 he).1
      refine ⟨hfree e he, ?_⟩
      rw [mem_pending he]
      exact Cursor.line_le_skip _ _
  · have hskip := Cursor.skip_add w.length (k + 1) c
    rw [skip_newline hrest] at hskip
    have hline := Cursor.line_le_skip w.length c
    have hstale : c.line ≠ (c.skip (w.length + (k + 1))).line := by rw [hskip]; simp only; omega
    refine Yields.step hf (u := ready (c.skip (w.length + (k + 1))) n outer true _) ?_ hend rfl ?_
      (h _ (by rw [hskip]) (by rw [hskip]))
    · rw [Lexer.dropStale_free hfree, List.filter_eq_nil_iff.2]
      · rfl
      · intro e he
        rw [mem_pending he]
        simp [Lexer.isStale, bne_iff_ne.2 hstale]
    · simp only [ready, hskip, hc, List.length_append, List.length_cons, length_spaces]
      omega

section Waiting

variable {key : PendingKey} {t : Token}

theorem Lexer.fetchValue_waiting (hkey : key.number = ts.length) (hm : key.column = m)
    (hn : n ≤ m) : (⟨c, 0, n, outer, false, [(0, key)], ts ++ [t]⟩ : Lexer).fetchValue
      = .ok (ready c.next m (around n m outer) false
          (ts ++ opening n m .blockMappingStart ++ [.key, t, .value])) := by
  subst hm
  by_cases hlt : n < key.column
  · simp [fetchValue, ready, inFlow, opens, openAt, push, insertAt, advance, opening, around, hlt,
      hkey, Cursor.skip]
    rfl
  · obtain rfl : n = key.column := by omega
    simp [fetchValue, ready, inFlow, opens, push, insertAt, advance, opening, around, hkey,
      Cursor.skip]
    rfl

theorem Lexer.fetch_waiting (hc : c.rest = ':' :: x :: r) (hx : separates x) (hcol : n ≤ c.column)
    (hkey : key.number = ts.length) (hm : key.column = m) (hn : n ≤ m) (hline : key.line = c.line)
    (hindex : c.index - key.index ≤ 1024) :
    (⟨c, 0, n, outer, false, [(0, key)], ts ++ [t]⟩ : Lexer).fetch
      = .ok (ready c.next m (around n m outer) false
          (ts ++ opening n m .blockMappingStart ++ [.key, t, .value])) := by
  have hgap : (⟨c, 0, n, outer, false, [(0, key)], ts ++ [t]⟩ : Lexer).toNextToken
      = ⟨c, 0, n, outer, false, [(0, key)], ts ++ [t]⟩ :=
    toNextToken_solid (k := 0) hc (solid_cons (by decide))
  have hdrop : (⟨c, 0, n, outer, false, [(0, key)], ts ++ [t]⟩ : Lexer).dropStale
      = .ok ⟨c, 0, n, outer, false, [(0, key)], ts ++ [t]⟩ := by
    have hlt : ¬1024 < c.index - key.index := by omega
    simp [dropStale, isStale, hline, hlt]
  rw [fetch_eq (by rw [hgap]; exact hdrop), unwind_eq hcol,
    fetchHere_colon (s := ⟨c, 0, n, outer, false, [(0, key)], ts ++ [t]⟩) hc hx,
    fetchValue_waiting hkey hm hn]

end Waiting

/-- A scalar and the colon behind it, on one line. The lexer gives a key up after 1024 characters. -/
theorem At.key (hs : Scans w text plain) (hw : ∀ y ∈ w, takesColumn y) (hx : separates x)
    (hn : n ≤ m)
    (hshort : w.length ≤ 1024 → At o false (m + w.length + 1) (x :: r) m (around n m outer)
      (ts ++ opening n m .blockMappingStart ++ [.key, .scalar text plain, .value]))
    (hlong : 1024 < w.length → o = none) : At o true m (w ++ ':' :: x :: r) n outer ts := by
  intro c hc hm
  have hf : (ready c n outer true ts).fetch = .ok ⟨c.skip w.length, 0, n, outer, false,
      pending c n true ts, ts ++ [.scalar text plain]⟩ := hs.key hc hx (by omega)
  have hskip := Cursor.skip_eq hc hw
  have hend : .streamEnd ∉ ts → .streamEnd ∉ ts ++ [.scalar text plain] := by simp
  have hlen : 0 < w.length := List.length_pos_iff.2 hs.some
  rw [pending, if_pos rfl] at hf
  generalize c.skip w.length = d at hskip hf
  have hrest : d.rest = ':' :: x :: r := by rw [hskip]
  have hcol : d.column = c.column + w.length := by rw [hskip]
  have hline : c.line = d.line := by rw [hskip]
  have hindex : d.index - c.index = w.length := by rw [hskip]; simp
  have hstep : d.rest.length < (ready c n outer true ts).cursor.rest.length := by
    simp only [ready, hrest, hc, List.length_append, List.length_cons]
    omega
  by_cases hw : w.length ≤ 1024
  · have hkeep : Lexer.dropStale ⟨d, 0, n, outer, false,
        [(0, ⟨ts.length, n == c.column, c.index, c.line, c.column⟩)], ts ++ [.scalar text plain]⟩
        = .ok ⟨d, 0, n, outer, false,
          [(0, ⟨ts.length, n == c.column, c.index, c.line, c.column⟩)],
          ts ++ [.scalar text plain]⟩ := by
      have hlt : ¬1024 < d.index - c.index := by omega
      simp [Lexer.dropStale, Lexer.isStale, hline, hlt]
    have hcolon : Lexer.fetch ⟨d, 0, n, outer, false,
        [(0, ⟨ts.length, n == c.column, c.index, c.line, c.column⟩)], ts ++ [.scalar text plain]⟩
        = .ok (ready d.next m (around n m outer) false
          (ts ++ opening n m .blockMappingStart ++ [.key, .scalar text plain, .value])) :=
      Lexer.fetch_waiting hrest hx (by omega) rfl hm hn hline (by simp only; omega)
    obtain ⟨hnext, hnextcol⟩ := next_mark hrest rfl (hcol.trans (by rw [hm]))
    refine Yields.step hf hkeep hend rfl hstep ?_
    refine Yields.step hcolon (Lexer.dropStale_eq rfl) ?_ rfl ?_ (hshort hw _ hnext hnextcol)
    · intro hts
      rw [opening]
      split <;> simpa [ready] using hts
    · simp [ready, hrest]
  · rw [hlong (by omega)]
    have hgt : 1024 < d.index - c.index := by omega
    by_cases hreq : n = c.column
    · refine Yields.fail_stale (e := .tokens) hf ?_ hend
      simp [Lexer.dropStale, Lexer.isStale, hgt, hreq]
    · have hdrop : Lexer.dropStale ⟨d, 0, n, outer, false,
          [(0, ⟨ts.length, n == c.column, c.index, c.line, c.column⟩)], ts ++ [.scalar text plain]⟩
          = .ok (ready d n outer false (ts ++ [.scalar text plain])) := by
        simp [Lexer.dropStale, Lexer.isStale, hgt, hreq, ready]
      refine Yields.step hf hdrop hend rfl hstep (Yields.fail (e := .tokens) ?_)
      refine Lexer.fetchNext_error _ ?_
      rw [Lexer.fetch_ready hrest (solid_cons (by decide)) (by omega),
        Lexer.fetchHere_colon (s := ready d n outer false _) hrest hx]
      rfl

end Scalars

section Ends

variable {m : Nat}

/-- Keys in waiting that need not be keys and began no later than a line. -/
def Idle (line : Nat) (keys : List (Int × PendingKey)) : Prop :=
  ∀ e ∈ keys, e.2.required = false ∧ e.2.line ≤ line

theorem Idle.filter {line : Nat} {keys : List (Int × PendingKey)} (h : Idle line keys)
    (p : Int × PendingKey → Bool) : Idle line (keys.filter p) :=
  fun e he => h e (List.mem_filter.1 he).1

theorem idle_pending (hn : n < c.column) {line : Nat} (hl : c.line ≤ line) :
    Idle line (pending c n allow ts) := by
  intro e he
  rw [mem_pending he]
  exact ⟨beq_eq_false_iff_ne.2 (by omega), hl⟩

theorem Lexer.dropStale_idle {line : Nat} (h : Idle line s.keys) :
    ∃ keys, s.dropStale = .ok { s with keys := keys } ∧ Idle line keys :=
  ⟨_, Lexer.dropStale_free fun e he => (h e he).1, h.filter _⟩

/-- The two halves of an empty collection in brackets. -/
inductive Brackets : Char → Char → Token → Token → Prop
  | list : Brackets '[' ']' .flowSequenceStart .flowSequenceEnd
  | dict : Brackets '\x7b' '\x7d' .flowMappingStart .flowMappingEnd

namespace Brackets

variable {a b : Char} {ta tb : Token}

theorem fetch_open (h : Brackets a b ta tb) (hc : c.rest = a :: b :: r) (hn : n ≤ c.column) :
    (ready c n outer allow ts).fetch
      = .ok ⟨c.next, 1, n, outer, true, pending c n allow ts, ts ++ [ta]⟩ := by
  have hsolid : Solid (a :: b :: r) := by cases h <;> exact solid_cons (by decide)
  have hopen : (ready c n outer allow ts).fetchHere = (ready c n outer allow ts).fetchOpening ta := by
    cases h <;>
    · have hstart : c.startsWith "---" = false := startsWith_eq_false (by simp [hc])
      have hend : c.startsWith "..." = false := startsWith_eq_false (by simp [hc])
      simp [Lexer.fetchHere, ready, Cursor.front_eq hc, Cursor.atEnd, hstart, hend]
  rw [Lexer.fetch_ready hc hsolid hn, hopen, Lexer.fetchOpening, Lexer.saveKey_ready]
  rfl

theorem fetch_close {line : Nat} {keys : List (Int × PendingKey)} (h : Brackets a b ta tb)
    (n : Int) (outer : List Int) (ts : List Token) (hc : c.rest = b :: r) (hkeys : Idle line keys) :
    ∃ keys', (⟨c, 1, n, outer, true, keys, ts⟩ : Lexer).fetch
      = .ok ⟨c.next, 0, n, outer, false, keys', ts ++ [tb]⟩ ∧ Idle line keys' := by
  have hsolid : Solid (b :: r) := by cases h <;> exact solid_cons (by decide)
  have hgap : (⟨c, 1, n, outer, true, keys, ts⟩ : Lexer).toNextToken
      = ⟨c, 1, n, outer, true, keys, ts⟩ := Lexer.toNextToken_solid (k := 0) hc hsolid
  obtain ⟨keys', hdrop, hidle⟩ := Lexer.dropStale_idle
    (s := ⟨c, 1, n, outer, true, keys, ts⟩) hkeys
  have hclose : (⟨c, 1, n, outer, true, keys', ts⟩ : Lexer).fetchHere
      = (⟨c, 1, n, outer, true, keys', ts⟩ : Lexer).fetchClosing tb := by
    cases h <;>
    · have hstart : c.startsWith "---" = false := startsWith_eq_false (by simp [hc])
      have hend : c.startsWith "..." = false := startsWith_eq_false (by simp [hc])
      simp [Lexer.fetchHere, Cursor.front_eq hc, Cursor.atEnd, hstart, hend]
  have hkey : (⟨c, 1, n, outer, true, keys', ts⟩ : Lexer).dropKey
      = .ok ⟨c, 1, n, outer, true, keys'.filter (·.1 != 1), ts⟩ := by
    rw [Lexer.dropKey, if_neg]
    simp only [List.any_eq_true, Bool.and_eq_true, not_exists, not_and]
    intro e he _
    simp [(hidle e he).1]
  refine ⟨keys'.filter (·.1 != 1), ?_, hidle.filter _⟩
  rw [Lexer.fetch_eq (by rw [hgap]; exact hdrop)]
  change (⟨c, 1, n, outer, true, keys', ts⟩ : Lexer).fetchHere = _
  rw [hclose, Lexer.fetchClosing, hkey]
  rfl

end Brackets

/-- An empty collection in brackets, set in further than the collection around it. -/
theorem At.brackets {a b : Char} {ta tb : Token} (hb : Brackets a b ta tb) (hr : Solid r)
    (hn : n < m) (h : At o true k r n outer (ts ++ [ta, tb])) :
    At o allow m (a :: b :: '\n' :: (spaces k ++ r)) n outer ts := by
  intro c hc hm
  have hta : .streamEnd ∉ ts → .streamEnd ∉ ts ++ [ta] := by cases hb <;> simp
  have htb : .streamEnd ∉ ts ++ [ta] → .streamEnd ∉ ts ++ [ta] ++ [tb] := by cases hb <;> simp
  have h1 : c.next.rest = b :: '\n' :: (spaces k ++ r) := by rw [Cursor.rest_next, hc]; rfl
  have h2 : c.next.next.rest = '\n' :: (spaces k ++ r) := by rw [Cursor.rest_next, h1]; rfl
  have hline := Nat.le_trans (Cursor.line_le_next c) (Cursor.line_le_next c.next)
  obtain ⟨keys, hdrop, hidle⟩ := Lexer.dropStale_idle
    (s := ⟨c.next, 1, n, outer, true, pending c n allow ts, ts ++ [ta]⟩)
    (idle_pending (by omega) hline)
  obtain ⟨keys', hclose, hidle'⟩ := hb.fetch_close n outer (ts ++ [ta]) h1 hidle
  obtain ⟨keys'', hdrop', hidle''⟩ := Lexer.dropStale_idle
    (s := ⟨c.next.next, 0, n, outer, false, keys', ts ++ [ta] ++ [tb]⟩) hidle'
  refine Yields.step (hb.fetch_open hc (by omega)) hdrop hta rfl (by simp [ready, hc]) ?_
  refine Yields.step hclose hdrop' htb rfl (by simp only [h1, h2, List.length_cons]; omega) ?_
  refine Yields.newline h2 hr hidle'' ?_
  rwa [List.append_assoc]

/-- The end of a text in which one collection is open. -/
theorem At.finish {ts : List Token} :
    At (some (ts ++ [.blockEnd, .streamEnd])) true 0 [] 0 [-1] ts := by
  intro c hc hm
  have hfetch : (ready c 0 [-1] true ts).fetch
      = .ok ⟨c, 0, -1, [], false, [], ts ++ [.blockEnd] ++ [.streamEnd]⟩ := by
    have hend : c.atEnd = true := by rw [Cursor.atEnd, Cursor.front_nil hc]; rfl
    rw [Lexer.fetch_ready hc (by rintro y ⟨⟩) (by omega), Lexer.fetchHere]
    simp only [ready, hend]
    rfl
  have := Yields.finish hfetch (by simp [Lexer.hasEnded])
  rwa [List.append_assoc] at this

end Ends

end BuildPipeline.Yaml
