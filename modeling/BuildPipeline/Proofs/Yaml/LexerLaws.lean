import BuildPipeline.Proofs.Yaml.DoubleQuotes
import BuildPipeline.Proofs.Yaml.PlainScalars
import BuildPipeline.Yaml.Token.Lexer

/-!
Laws of the lexer in block context. `Yields o s` says what comes of a lexer that goes on to the end
of its text: the tokens that it hands out, or `none` when it fails on the way. What it fetches next is
one law for each mark that may come first.
-/

namespace BuildPipeline.Yaml

/-- All tokens of a text, or `none` when the text fails before its end is handed out. -/
def Outcome (o : Option (List Token)) (t : Tokens) : Prop :=
  match o with
  | some ts => t = ⟨ts, none⟩
  | none => t.failure.isSome ∧ .streamEnd ∉ t.list

def Yields (o : Option (List Token)) (s : Lexer) : Prop :=
  .streamEnd ∉ s.tokens → ∀ fuel, s.cursor.rest.length + 2 ≤ fuel → Outcome o (.fetchAll fuel s)

variable {o : Option (List Token)} {s t u : Lexer} {c : Cursor} {ch : Char} {r w : List Char}
  {k : Nat} {n i m : Int} {outer is : List Int} {ts : List Token} {allow : Bool}

namespace Lexer

theorem hasEnded_eq_false (h : .streamEnd ∉ s.tokens) : s.hasEnded = false := by
  rw [hasEnded, beq_eq_false_iff_ne]
  exact fun hl => h (List.mem_of_getLast? hl)

theorem fetchNext_error (e : ReadError) (h : s.fetch = .error e) : s.fetchNext = .error e := by
  rw [fetchNext, h]
  rfl

theorem fetchNext_eq (h : s.fetch = .ok t) (ht : .streamEnd ∉ t.tokens) :
    s.fetchNext = t.dropStale := by
  rw [fetchNext, h]
  change (if t.hasEnded then _ else _) = _
  rw [hasEnded_eq_false ht]
  rfl

theorem fetchNext_end (h : s.fetch = .ok t) (ht : t.hasEnded) : s.fetchNext = .ok t := by
  rw [fetchNext, h]
  change (if t.hasEnded then _ else _) = _
  rw [ht]
  rfl

end Lexer

theorem Tokens.fetchAll_error {e : ReadError} (h : s.fetchNext = .error e) (fuel : Nat) :
    Tokens.fetchAll (fuel + 1) s = ⟨s.tokens.take s.demand, some e⟩ := by
  rw [fetchAll, h]
  rfl

theorem Tokens.fetchAll_ok (h : s.fetchNext = .ok t) (fuel : Nat) :
    Tokens.fetchAll (fuel + 1) s = if t.hasEnded then ⟨t.tokens, none⟩ else fetchAll fuel t := by
  rw [fetchAll, h]
  rfl

theorem Yields.step (h : s.fetch = .ok t) (hd : t.dropStale = .ok u)
    (hts : .streamEnd ∉ s.tokens → .streamEnd ∉ t.tokens) (hu : u.tokens = t.tokens)
    (hlen : u.cursor.rest.length < s.cursor.rest.length) (hgo : Yields o u) : Yields o s := by
  intro hs fuel hf
  cases fuel with
  | zero => omega
  | succ fuel =>
    have ht := hts hs
    have hu' : .streamEnd ∉ u.tokens := hu ▸ ht
    rw [Tokens.fetchAll_ok ((Lexer.fetchNext_eq h ht).trans hd), Lexer.hasEnded_eq_false hu']
    exact hgo hu' fuel (by omega)

theorem Yields.fail {e : ReadError} (h : s.fetchNext = .error e) : Yields none s := by
  intro hs fuel hf
  cases fuel with
  | zero => omega
  | succ fuel =>
    rw [Tokens.fetchAll_error h]
    exact ⟨rfl, fun hmem => hs (List.mem_of_mem_take hmem)⟩

theorem Yields.fail_stale {e : ReadError} (h : s.fetch = .ok t) (hd : t.dropStale = .error e)
    (hts : .streamEnd ∉ s.tokens → .streamEnd ∉ t.tokens) : Yields none s :=
  fun hs => Yields.fail ((Lexer.fetchNext_eq h (hts hs)).trans hd) hs

theorem Yields.finish (h : s.fetch = .ok t) (ht : t.hasEnded) : Yields (some t.tokens) s := by
  intro hs fuel hf
  cases fuel with
  | zero => omega
  | succ fuel =>
    rw [Tokens.fetchAll_ok (Lexer.fetchNext_end h ht), if_pos ht]
    rfl

/-- What comes of a lexer depends on its next token alone. -/
theorem Yields.congr (h : s.fetch = t.fetch) (hts : .streamEnd ∉ s.tokens → .streamEnd ∉ t.tokens)
    (hlen : t.cursor.rest.length ≤ s.cursor.rest.length) (ht : Yields o t) : Yields o s := by
  intro hs fuel hf
  have hout := ht (hts hs) fuel (by omega)
  have hnext : s.fetchNext = t.fetchNext := by rw [Lexer.fetchNext, Lexer.fetchNext, h]
  cases fuel with
  | zero => omega
  | succ fuel =>
    cases hv : t.fetchNext with
    | error e =>
      rw [Tokens.fetchAll_error hv] at hout
      rw [Tokens.fetchAll_error (hnext.trans hv)]
      cases o with
      | some l => cases hout
      | none => exact ⟨rfl, fun hmem => hs (List.mem_of_mem_take hmem)⟩
    | ok v =>
      rw [Tokens.fetchAll_ok hv] at hout
      rwa [Tokens.fetchAll_ok (hnext.trans hv)]

namespace Lexer

/-- A lexer in block context with no key in waiting. -/
def ready (c : Cursor) (n : Int) (outer : List Int) (allow : Bool) (ts : List Token) : Lexer :=
  ⟨c, 0, n, outer, allow, [], ts⟩

theorem dropGap_solid {fuel : Nat} (h : s.cursor.rest = spaces k ++ r) (hr : Solid r) :
    dropGap (fuel + 1) s = { s with cursor := s.cursor.skip k } := by
  have hrest : (s.cursor.skip k).rest = r := by
    rw [Cursor.rest_skip, h, List.drop_left' (length_spaces _)]
  have hspaces : s.cursor.dropSpaces = s.cursor.skip k := by
    rw [Cursor.dropSpaces, Cursor.dropWhile_eq h
      (fun x hx => by simp [List.eq_of_mem_replicate hx]), length_spaces]
    intro x hx
    simpa using (hr x hx).1
  have hcomment : (s.cursor.skip k).dropComment = s.cursor.skip k := by
    rw [Cursor.dropComment, if_neg]
    simpa using (hr.at hrest).2.1
  rw [dropGap, hspaces, hcomment, nextLine]
  simp only [hr.lineBreak hrest]

theorem dropGap_newline {fuel : Nat} (h : s.cursor.rest = '\n' :: (spaces k ++ r)) (hr : Solid r)
    (hflow : s.flow = 0) :
    dropGap (fuel + 2) s = { s with cursor := s.cursor.skip (k + 1), allowKey := true } := by
  have hspaces : s.cursor.dropSpaces = s.cursor := by
    rw [Cursor.dropSpaces, Cursor.dropWhile_none]
    rw [Cursor.front_eq h]
    rfl
  have hcomment : s.cursor.dropComment = s.cursor := by
    rw [Cursor.dropComment, if_neg]
    rw [Cursor.front_eq h]
    decide
  have hnext : s.cursor.next.rest = spaces k ++ r := by rw [Cursor.rest_next, h]; rfl
  rw [dropGap, hspaces, hcomment, nextLine]
  simp only [Cursor.lineBreak_eq h rfl]
  rw [dropGap_solid (k := k) (r := r) hnext hr]
  simp [inFlow, hflow, Cursor.skip]

theorem toNextToken_solid (h : s.cursor.rest = spaces k ++ r) (hr : Solid r) :
    s.toNextToken = { s with cursor := s.cursor.skip k } := by
  have hmark : s.cursor.front ≠ '\uFEFF' := by
    cases k with
    | zero => exact (hr.at h).2.2.2.1
    | succ k =>
      rw [spaces_succ] at h
      rw [Cursor.front_eq h]
      decide
  simp only [toNextToken, beq_eq_false_iff_ne.2 hmark, Bool.and_false]
  exact dropGap_solid h hr

theorem toNextToken_newline (h : s.cursor.rest = '\n' :: (spaces k ++ r)) (hr : Solid r)
    (hflow : s.flow = 0) :
    s.toNextToken = { s with cursor := s.cursor.skip (k + 1), allowKey := true } := by
  have hfuel : s.cursor.fuel = s.cursor.rest.length - 1 + 2 := by
    rw [Cursor.fuel, h]
    rfl
  have hmark : (s.cursor.front == '\uFEFF') = false := by
    rw [Cursor.front_eq h]
    rfl
  simp only [toNextToken, hmark, Bool.and_false]
  change dropGap s.cursor.fuel s = _
  rw [hfuel]
  exact dropGap_newline h hr hflow

theorem dropStale_eq (h : s.keys = []) : s.dropStale = .ok s := by
  obtain ⟨_, _, _, _, _, _, _⟩ := s
  cases h
  rfl

theorem fetch_eq (h : s.toNextToken.dropStale = .ok t) :
    s.fetch = (t.unwind t.column).fetchHere := by
  rw [fetch, h]
  rfl

theorem unwind_eq (h : s.indentation ≤ m) : s.unwind m = s := by
  have hclose : closeTo m s.outer s = s := by
    cases ho : s.outer with
    | nil => rfl
    | cons i is => rw [closeTo, if_neg (by omega)]
  rw [unwind, hclose, ite_self]

theorem unwind_cons (hf : s.flow = 0) (ho : s.outer = i :: is) (h : m < s.indentation) :
    s.unwind m = { s.push .blockEnd with indentation := i, outer := is }.unwind m := by
  have hin : s.inFlow = false := by rw [inFlow, hf]; rfl
  rw [unwind, hin, ho]
  change closeTo m (i :: is) s = _
  rw [closeTo, if_pos h]
  change _ = if inFlow s then _ else _
  rw [hin]
  rfl

theorem fetch_ready (h : c.rest = r) (hr : Solid r) (hn : n ≤ c.column) :
    (ready c n outer allow ts).fetch = (ready c n outer allow ts).fetchHere := by
  have hgap : (ready c n outer allow ts).toNextToken = ready c n outer allow ts :=
    toNextToken_solid (k := 0) h hr
  rw [fetch_eq (by rw [hgap]; exact dropStale_eq rfl), unwind_eq hn]

section Marks

variable {x : Char}

theorem fetchHere_dash (h : c.rest = '-' :: x :: r) (hx : separates x) :
    (ready c n outer allow ts).fetchHere = (ready c n outer allow ts).fetchBlockEntry := by
  have hdash : '-' ≠ x := by rintro rfl; exact absurd hx (by decide)
  have h1 : c.peek 1 = x := by rw [Cursor.peek_succ h]; rfl
  have hstart : c.startsWith "---" = false := startsWith_eq_false (by simp [h, hdash])
  have hend : c.startsWith "..." = false := startsWith_eq_false (by simp [h])
  simp [fetchHere, ready, Cursor.front_eq h, Cursor.atEnd, hstart, hend, isEntryMark, h1, hx]

theorem fetchHere_question (h : c.rest = '?' :: x :: r) (hx : separates x) :
    (ready c n outer allow ts).fetchHere = (ready c n outer allow ts).fetchKey := by
  have h1 : c.peek 1 = x := by rw [Cursor.peek_succ h]; rfl
  have hstart : c.startsWith "---" = false := startsWith_eq_false (by simp [h])
  have hend : c.startsWith "..." = false := startsWith_eq_false (by simp [h])
  simp [fetchHere, ready, Cursor.front_eq h, Cursor.atEnd, hstart, hend, isKeyMark, h1, hx]

theorem fetchHere_colon (h : s.cursor.rest = ':' :: x :: r) (hx : separates x) :
    s.fetchHere = s.fetchValue := by
  have h1 : s.cursor.peek 1 = x := by rw [Cursor.peek_succ h]; rfl
  have hstart : s.cursor.startsWith "---" = false := startsWith_eq_false (by simp [h])
  have hend : s.cursor.startsWith "..." = false := startsWith_eq_false (by simp [h])
  simp [fetchHere, Cursor.front_eq h, Cursor.atEnd, hstart, hend, isKeyMark, h1, hx]

theorem fetchHere_single (h : s.cursor.rest = '\'' :: r) :
    s.fetchHere = s.fetchKeyed fun c =>
      return ((← quotedScalar false c).map (Token.scalar · false) id) := by
  have hstart : s.cursor.startsWith "---" = false := startsWith_eq_false (by simp [h])
  have hend : s.cursor.startsWith "..." = false := startsWith_eq_false (by simp [h])
  simp [fetchHere, Cursor.front_eq h, Cursor.atEnd, hstart, hend]

theorem fetchHere_double (h : s.cursor.rest = '"' :: r) :
    s.fetchHere = s.fetchKeyed fun c =>
      return ((← quotedScalar true c).map (Token.scalar · false) id) := by
  have hstart : s.cursor.startsWith "---" = false := startsWith_eq_false (by simp [h])
  have hend : s.cursor.startsWith "..." = false := startsWith_eq_false (by simp [h])
  simp [fetchHere, Cursor.front_eq h, Cursor.atEnd, hstart, hend]

/-- What the front of a bare text shows to the lexer. -/
theorem front_of_allowsPlain (h : hasIndicatorInFront (ch :: w) = false) :
    (¬"---".toList <+: ch :: w ∧ ¬"...".toList <+: ch :: w)
      ∧ "#,[]\x7b\x7d&*!|>'\"%@\x60".toList.contains ch = false
      ∧ (ch = '?' ∨ ch = '-' → ∃ x ∈ w.head?, separates x = false) := by
  rw [hasIndicatorInFront.eq_def] at h
  split at h
  · cases h
  · cases h
  · rename_i hdash hdot heq
    cases heq
    simp only [Bool.or_eq_false_iff, Bool.and_eq_false_iff] at h
    refine ⟨⟨?_, ?_⟩, h.1, fun hch => ?_⟩
    · rintro ⟨r, hr⟩
      cases hr
      exact hdash _ rfl rfl
    · rintro ⟨r, hr⟩
      cases hr
      exact hdot _ rfl rfl
    · have hsep := h.2.resolve_left (by rcases hch with rfl | rfl <;> decide)
      cases w with
      | nil => cases hsep
      | cons x w => exact ⟨x, rfl, hsep⟩
  · cases ‹ch :: w = []›

theorem prefix_of_append {p : List Char} (h : p <+: w ++ x :: r) (hx : x ∉ p) : p <+: w := by
  induction p generalizing w with
  | nil => exact List.nil_prefix
  | cons a p ih =>
    rw [List.mem_cons, not_or] at hx
    cases w with
    | nil => exact absurd (List.cons_prefix_cons.1 h).1.symm hx.1
    | cons b w =>
      obtain ⟨hab, hp⟩ := List.cons_prefix_cons.1 h
      exact List.cons_prefix_cons.2 ⟨hab, ih hp hx.2⟩

/-- What the lexer looks at in front of a plain scalar. -/
structure PlainFront (s : Lexer) (ch : Char) : Prop where
  front : s.cursor.front = ch
  ink : separates ch = false
  list : "#,[]\x7b\x7d&*!|>'\"%@\x60".toList.contains ch = false
  mark : ch = '-' ∨ ch = '?' ∨ ch = ':' → separates (s.cursor.peek 1) = false
  start : s.cursor.startsWith "---" = false ∧ s.cursor.startsWith "..." = false

theorem PlainFront.not_mark (h : PlainFront s ch) {a : Char} (ha : a = '-' ∨ a = '?' ∨ a = ':') :
    (ch == a && separates (s.cursor.peek 1)) = false := by
  by_cases hc : ch = a
  · subst hc
    rw [h.mark ha, Bool.and_false]
  · rw [beq_eq_false_iff_ne.2 hc, Bool.false_and]

theorem PlainFront.startsPlain (h : PlainFront s ch) (hflow : s.inFlow = false) :
    s.startsPlain = true := by
  have hlist := h.list
  by_cases hc : ch = '-' ∨ ch = '?' ∨ ch = ':'
  · have hp := h.mark hc
    rcases hc with rfl | rfl | rfl <;> simp [Lexer.startsPlain, h.front, hp, hflow]
  · simp at hlist
    simp only [not_or] at hc
    simp [Lexer.startsPlain, h.front, h.ink, hlist, hc]

theorem PlainFront.fetchHere (h : PlainFront s ch) (hflow : s.inFlow = false) :
    s.fetchHere = s.fetchPlain := by
  have hlist := h.list
  simp at hlist
  have hzero := (not_separates h.ink).1
  simp [Lexer.fetchHere, h.front, Cursor.atEnd, hzero, h.start, isEntryMark, isKeyMark, hflow,
    h.not_mark (.inl rfl), h.not_mark (.inr (.inl rfl)), h.not_mark (.inr (.inr rfl)),
    h.startsPlain hflow, hlist]

theorem fetchHere_plain (hflow : s.flow = 0) (h : s.cursor.rest = w ++ x :: r) (hw : allowsPlain w)
    (hne : w ≠ []) (hx : x = ':' ∨ x = '\n') : s.fetchHere = s.fetchPlain := by
  have hbare := bare_of_allowsPlain hw hne
  have hfront := hasIndicatorInFront_of_allowsPlain hw hne
  obtain ⟨ch, w, rfl⟩ := List.exists_cons_of_ne_nil hne
  obtain ⟨⟨hdash, hdot⟩, hlist, hmark⟩ := front_of_allowsPlain hfront
  have hsep : separates ch = false := by
    obtain ⟨_, _, hcons, hs⟩ := hbare.starts
    cases hcons
    exact plain_not_separates (hbare.glyphs _ List.mem_cons_self).1 hs
      (hbare.glyphs _ List.mem_cons_self).2
  have hcolon : ch = ':' → ∃ y ∈ w.head?, separates y = false := by
    rintro rfl
    have := hbare.indicators
    cases w with
    | nil => cases this
    | cons y w =>
      simp only [hasIndicatorWithin, Bool.or_eq_false_iff] at this
      exact ⟨y, rfl, by simpa using this.1.1⟩
  have hpeek : ch = '-' ∨ ch = '?' ∨ ch = ':' → separates (s.cursor.peek 1) = false := by
    intro hch
    have : ∃ y ∈ w.head?, separates y = false := by
      rcases hch with h | h | h
      · exact hmark (.inr h)
      · exact hmark (.inl h)
      · exact hcolon h
    obtain ⟨y, hy, hys⟩ := this
    obtain ⟨w, rfl⟩ : ∃ v, w = y :: v := by
      cases w with
      | nil => cases hy
      | cons z w => cases hy; exact ⟨w, rfl⟩
    rw [Cursor.peek_succ h]
    exact hys
  have hstart : s.cursor.startsWith "---" = false := startsWith_eq_false fun hp => hdash (by
    rw [h] at hp
    exact prefix_of_append hp (by rcases hx with rfl | rfl <;> decide))
  have hend : s.cursor.startsWith "..." = false := startsWith_eq_false fun hp => hdot (by
    rw [h] at hp
    exact prefix_of_append hp (by rcases hx with rfl | rfl <;> decide))
  have hin : s.inFlow = false := by rw [inFlow, hflow]; rfl
  exact PlainFront.fetchHere ⟨Cursor.front_eq h, hsep, hlist, hpeek, hstart, hend⟩ hin

end Marks

/-- The token that opens a collection at a column, if none is open there. -/
def opening (n : Int) (m : Nat) (t : Token) : List Token := if n < m then [t] else []

/-- The indentations around a collection at a column. -/
def around (n : Int) (m : Nat) (outer : List Int) : List Int := if n < m then n :: outer else outer

theorem openBlock_ready {m : Nat} (hm : c.column = m) (hn : n ≤ m) (t : Token) :
    (ready c n outer true ts).openBlock t
      = .ok (ready c m (around n m outer) true (ts ++ opening n m t)) := by
  subst hm
  by_cases hlt : n < c.column
  · simp [openBlock, ready, inFlow, opens, column, openAt, push, opening, around, hlt]
  · obtain rfl : n = c.column := by omega
    simp [openBlock, ready, inFlow, opens, column, opening, around]

end Lexer

end BuildPipeline.Yaml
