import BuildPipeline.Proofs.Yaml.QuotedScalars

/-!
Single quotes. Every text comes back but for the break U+0085, which is read as a line feed and
folded like one; `echo` is what comes back.
-/

namespace BuildPipeline.Yaml

open Cursor (breakRead)

/-- What single quotes give back of a text. -/
def echo (afterBreak : Bool) : List Char → List Char
  | [] => []
  | c :: cs =>
    if isBreak c then
      if c = '\u0085' ∧ !afterBreak then
        (if cs.head?.any isBreak then [] else [' ']) ++ echo true cs
      else breakRead c :: echo true cs
    else c :: echo false cs

variable {c : Cursor} {ch : Char} {r bs cs : List Char} {n : Nat}

theorem exists_span (p : Char → Bool) (cs : List Char) :
    ∃ bs ds, cs = bs ++ ds ∧ (∀ x ∈ bs, p x) ∧ ∀ x ∈ ds.head?, p x = false := by
  refine ⟨cs.takeWhile p, cs.dropWhile p, List.takeWhile_append_dropWhile.symm,
    List.all_eq_true.1 List.all_takeWhile, fun x hx => ?_⟩
  have := List.head?_dropWhile_not p cs
  rw [hx] at this
  exact this

section Echo

theorem echo_of_not_mem {after : Bool} (h : '\u0085' ∉ cs) : echo after cs = cs := by
  induction cs generalizing after with
  | nil => rfl
  | cons c cs ih =>
    have hc : c ≠ '\u0085' := fun hc => h (hc ▸ List.mem_cons_self)
    have hcs : '\u0085' ∉ cs := fun hcs => h (List.mem_cons_of_mem _ hcs)
    simp [echo, hc, breakRead, ih hcs]

theorem not_mem_echo (after : Bool) (cs : List Char) : '\u0085' ∉ echo after cs := by
  induction cs generalizing after with
  | nil => exact List.not_mem_nil
  | cons c cs ih =>
    rw [echo]
    split
    · split
      · split <;> simp [ih]
      · have hb : '\u0085' ≠ breakRead c := by
          rw [breakRead]
          split
          · decide
          · rename_i hc
            exact Ne.symm hc
        simp [hb, ih]
    · rename_i hb
      have hc : '\u0085' ≠ c := by
        rintro rfl
        exact hb rfl
      simp [hc, ih]

/-- A text comes back as it was just when it is free of U+0085. -/
theorem echo_eq_self_iff : echo false cs = cs ↔ '\u0085' ∉ cs :=
  ⟨fun h => h ▸ not_mem_echo false cs, echo_of_not_mem⟩

theorem echo_cons_of_not_break {after : Bool} (h : isBreak ch = false) :
    echo after (ch :: cs) = ch :: echo false cs := by
  simp [echo, h]

theorem echo_spaces (k : Nat) : echo false (spaces k ++ cs) = spaces k ++ echo false cs := by
  induction k with
  | zero => rfl
  | succ k ih => rw [spaces_succ, List.cons_append, echo_cons_of_not_break rfl, ih, List.cons_append]

theorem echo_true_eq (h : ∀ x ∈ cs.head?, isBreak x = false) : echo true cs = echo false cs := by
  cases cs with
  | nil => rfl
  | cons c cs => rw [echo_cons_of_not_break (h c rfl), echo_cons_of_not_break (h c rfl)]

theorem echo_breaks (hbs : ∀ b ∈ bs, isBreak b) (hcs : ∀ x ∈ cs.head?, isBreak x = false) :
    echo true (bs ++ cs) = bs.map breakRead ++ echo false cs := by
  induction bs with
  | nil => exact echo_true_eq hcs
  | cons b bs ih =>
    have hb := hbs b List.mem_cons_self
    simp [echo, hb, ih fun x hx => hbs x (List.mem_cons_of_mem _ hx)]

end Echo

section Shown

theorem pairUp_cons_cons (p q : Char → Bool) (a b : Char) (cs : List Char) :
    pairUp p q (a :: b :: cs) = (p a && q b || pairUp p q (b :: cs)) := by
  simp [pairUp, neighbours]

theorem pairUp_run {p q : Char → Bool} {b : Char} (h : pairUp p q (b :: (bs ++ cs)) = false)
    (hb : p b) (hbs : ∀ x ∈ bs, p x) : ∀ x ∈ cs.head?, q x = false := by
  induction bs generalizing b with
  | nil =>
    rintro x hx
    cases cs with
    | nil => cases hx
    | cons y cs =>
      cases hx
      rw [List.nil_append, pairUp_cons_cons, hb, Bool.true_and] at h
      exact (Bool.or_eq_false_iff.1 h).1
  | cons x bs ih =>
    rw [List.cons_append, pairUp_cons_cons] at h
    exact ih (Bool.or_eq_false_iff.1 h).2 (hbs x List.mem_cons_self)
      fun y hy => hbs y (List.mem_cons_of_mem _ hy)

theorem pairUp_tail {p q : Char → Bool} (h : pairUp p q (ch :: cs) = false) :
    pairUp p q cs = false := by
  cases cs with
  | nil => rfl
  | cons x cs =>
    rw [pairUp_cons_cons] at h
    exact (Bool.or_eq_false_iff.1 h).2

theorem allowsSingle_iff :
    allowsSingle cs ↔ hasBreakSpace cs = false ∧ hasSpaceBreak cs = false
      ∧ ∀ x ∈ cs, isPlainGlyph x := by
  simp [allowsSingle, hasSpecial, and_assoc]

theorem allowsSingle_tail (h : allowsSingle (ch :: cs)) : allowsSingle cs := by
  obtain ⟨hb, hs, hp⟩ := allowsSingle_iff.1 h
  exact allowsSingle_iff.2
    ⟨pairUp_tail hb, pairUp_tail hs, fun x hx => hp x (List.mem_cons_of_mem _ hx)⟩

theorem allowsSingle_of_append (h : allowsSingle (bs ++ cs)) : allowsSingle cs := by
  induction bs with
  | nil => exact h
  | cons b bs ih => exact ih (allowsSingle_tail h)

end Shown

section Body

theorem singleBody_some {q : Char} (h : isBreak q = false) :
    singleBody n (some q) cs = singleBody n none cs := by
  cases cs <;> simp [singleBody, h]

theorem singleBody_cons (h : isBreak ch = false) :
    singleBody n none (ch :: cs)
      = (if ch == '\'' then ['\'', '\''] else [ch]) ++ singleBody n none cs := by
  simp [singleBody, h, singleBody_some h]

theorem singleBody_spaces (k : Nat) :
    singleBody n none (spaces k ++ cs) = spaces k ++ singleBody n none cs := by
  induction k with
  | zero => rfl
  | succ k ih =>
    rw [spaces_succ, List.cons_append, singleBody_cons rfl, ih]
    rfl

theorem singleBody_breaks {b : Char} (hb : isBreak b) (hbs : ∀ b ∈ bs, isBreak b)
    (hcs : ∀ x ∈ cs.head?, isBreak x = false) :
    singleBody n (some b) (bs ++ cs) = bs ++ (spaces n ++ singleBody n none cs) := by
  induction bs generalizing b with
  | nil =>
    cases cs with
    | nil => simp [singleBody, hb]
    | cons x cs => simp [singleBody, hb, hcs x rfl]
  | cons x bs ih =>
    have hx := hbs x List.mem_cons_self
    have hq : x ≠ '\'' := by
      rintro rfl
      exact absurd hx (by decide)
    rw [List.cons_append, singleBody, ih hx fun y hy => hbs y (List.mem_cons_of_mem _ hy)]
    simp [hx, hb, hq]

/-- A character that shows as it is separates only if it is a space or a break. -/
theorem plain_not_separates (h : isPlainGlyph ch) (hs : ch ≠ ' ') (hb : isBreak ch = false) :
    separates ch = false := by
  have h0 : ch ≠ '\x00' := by rintro rfl; exact absurd h (by decide)
  have ht : ch ≠ '\t' := by rintro rfl; exact absurd h (by decide)
  have hr : ch ≠ '\r' := by rintro rfl; exact absurd h (by decide)
  simp [separates, h0, hs, ht, hr, hb]

theorem singleBody_head (h : allowsSingle cs)
    (hcs : ∀ x ∈ cs.head?, x ≠ ' ' ∧ isBreak x = false) (r : List Char) :
    ∃ ch r', singleBody n none cs ++ '\'' :: r = ch :: r' ∧ separates ch = false := by
  cases cs with
  | nil => exact ⟨'\'', r, rfl, rfl⟩
  | cons x cs =>
    obtain ⟨hs, hb⟩ := hcs x rfl
    have hx := plain_not_separates ((allowsSingle_iff.1 h).2.2 x List.mem_cons_self) hs hb
    rw [singleBody_cons hb]
    by_cases hq : x = '\''
    · subst hq
      exact ⟨'\'', _, rfl, rfl⟩
    · rw [if_neg (by simpa using hq)]
      exact ⟨x, _, rfl, hx⟩

end Body

section Reading

/-- A run of breaks as it is written, with what comes back of it. -/
theorem echo_run {b : Char} (hb : isBreak b) (hbs : ∀ b ∈ bs, isBreak b)
    (hcs : ∀ x ∈ cs.head?, isBreak x = false) :
    ∃ x xs, isBreak x ∧ (∀ y ∈ xs, isBreak y)
      ∧ singleBody n none (b :: (bs ++ cs)) = x :: (xs ++ (spaces n ++ singleBody n none cs))
      ∧ echo false (b :: (bs ++ cs)) = foldBreaks (breakRead x) (xs.map breakRead) ++ echo false cs := by
  have hq : b ≠ '\'' := by
    rintro rfl
    exact absurd hb (by decide)
  by_cases hn : b = '\n'
  · subst hn
    refine ⟨'\n', '\n' :: bs, rfl, ?_, ?_, ?_⟩
    · intro y hy
      rcases List.mem_cons.1 hy with rfl | hy
      · rfl
      · exact hbs y hy
    · rw [singleBody, singleBody_breaks hb hbs hcs]
      rfl
    · rw [echo, echo_breaks hbs hcs]
      rfl
  refine ⟨b, bs, hb, hbs, ?_, ?_⟩
  · rw [singleBody, singleBody_breaks hb hbs hcs]
    simp [hb, hn, hq]
  rw [echo, if_pos hb, echo_breaks hbs hcs]
  by_cases hnel : b = '\u0085'
  · subst hnel
    cases bs with
    | nil =>
      have hhead : cs.head?.any isBreak = false := by
        cases cs with
        | nil => rfl
        | cons y cs => exact hcs y rfl
      simp [hhead, foldBreaks, breakRead]
    | cons y bs => simp [hbs y List.mem_cons_self, foldBreaks, breakRead]
  · simp [foldBreaks, breakRead, hnel, hn]

/-- The text comes back as `echo` says from in front of its quoted form. -/
def ComesBack (n : Nat) (r cs : List Char) : Prop :=
  ∀ c : Cursor, c.rest = singleBody (n + 1) none cs ++ '\'' :: r →
    Quoted false c (echo false cs) (c.skip ((singleBody (n + 1) none cs).length + 1))

theorem comesBack_nil (hr : ∀ x ∈ r.head?, x ≠ '\'') : ComesBack n r [] := by
  intro c hc
  have hclose : Run false c [] c := by
    refine .quote (Cursor.front_eq hc) fun _ hpeek => ?_
    rw [Cursor.peek_succ hc] at hpeek
    cases r with
    | nil => exact absurd hpeek (by decide)
    | cons y r => exact hr y rfl hpeek
  exact .close hclose (Cursor.front_eq hc)

theorem comesBack_breaks {b : Char} (hb : isBreak b) (hbs : ∀ x ∈ bs, isBreak x)
    (h : allowsSingle (b :: (bs ++ cs))) (hcs : ∀ x ∈ cs.head?, isBreak x = false)
    (hmore : ComesBack n r cs) : ComesBack n r (b :: (bs ++ cs)) := by
  intro c hc
  obtain ⟨hbreak, -, -⟩ := allowsSingle_iff.1 h
  have hsingle : allowsSingle cs := allowsSingle_of_append (allowsSingle_tail h)
  have hhead : ∀ y ∈ cs.head?, y ≠ ' ' ∧ isBreak y = false := fun y hy =>
    ⟨by simpa using pairUp_run hbreak hb hbs y hy, hcs y hy⟩
  obtain ⟨ch, r', htail, hch⟩ := singleBody_head (n := n + 1) hsingle hhead r
  obtain ⟨y, ys, hy, hys, hbody, hecho⟩ := echo_run (n := n + 1) hb hbs hcs
  have hrest : c.rest = y :: (ys ++ (spaces (n + 1) ++ (singleBody (n + 1) none cs ++ '\'' :: r))) := by
    rw [hc, hbody]
    simp
  have hskip : (c.skip (ys.length + (n + 1) + 1)).rest = singleBody (n + 1) none cs ++ '\'' :: r := by
    rw [Cursor.rest_skip, hrest, List.drop_succ_cons, ← List.drop_drop, List.drop_left,
      List.drop_left' (length_spaces _)]
  have hlen : (y :: (ys ++ (spaces (n + 1) ++ singleBody (n + 1) none cs))).length + 1
      = ys.length + (n + 1) + 1 + ((singleBody (n + 1) none cs).length + 1) := by
    simp only [List.length_cons, List.length_append, length_spaces]
    omega
  rw [hecho, hbody, hlen, Cursor.skip_add]
  rw [htail] at hrest
  exact .breaks hrest hy hys hch (hmore _ hskip)

theorem comesBack_spaces {k : Nat} (h : allowsSingle (spaces (k + 1) ++ cs))
    (hcs : ∀ x ∈ cs.head?, x ≠ ' ') (hmore : ComesBack n r cs) :
    ComesBack n r (spaces (k + 1) ++ cs) := by
  intro c hc
  obtain ⟨-, hspace, -⟩ := allowsSingle_iff.1 h
  have hsingle : allowsSingle cs := allowsSingle_of_append h
  have hhead : ∀ y ∈ cs.head?, y ≠ ' ' ∧ isBreak y = false := fun y hy =>
    ⟨hcs y hy, pairUp_run hspace rfl (fun x hx => by simp [List.eq_of_mem_replicate hx]) y hy⟩
  obtain ⟨ch, r', htail, hch⟩ := singleBody_head (n := n + 1) hsingle hhead r
  rw [singleBody_spaces, List.append_assoc] at hc
  have hskip : (c.skip (k + 1)).rest = singleBody (n + 1) none cs ++ '\'' :: r := by
    rw [Cursor.rest_skip, hc, List.drop_left' (length_spaces _)]
  have hlen : (spaces (k + 1) ++ singleBody (n + 1) none cs).length + 1
      = k + 1 + ((singleBody (n + 1) none cs).length + 1) := by
    rw [List.length_append, length_spaces, Nat.add_assoc]
  rw [singleBody_spaces, echo_spaces, hlen, Cursor.skip_add]
  rw [htail] at hc
  exact .spaces hc hch (hmore _ hskip)

theorem comesBack_quote (hmore : ComesBack n r cs) : ComesBack n r ('\'' :: cs) := by
  intro c hc
  rw [singleBody_cons rfl] at hc ⊢
  have hskip : (c.skip 2).rest = singleBody (n + 1) none cs ++ '\'' :: r := by
    rw [Cursor.rest_skip, hc]
    rfl
  exact (hmore _ hskip).prepend ['\''] (by simp) fun _ _ h => .pair rfl hc h

theorem comesBack_glyph (hch : separates ch = false) (hq : ch ≠ '\'') (hmore : ComesBack n r cs) :
    ComesBack n r (ch :: cs) := by
  intro c hc
  obtain ⟨-, -, -, -, hb⟩ := not_separates hch
  rw [echo_cons_of_not_break hb]
  rw [singleBody_cons hb, if_neg (by simpa using hq)] at hc ⊢
  have hnext : c.next.rest = singleBody (n + 1) none cs ++ '\'' :: r := by
    rw [Cursor.rest_next, hc]
    rfl
  refine (hmore _ hnext).prepend [ch] (by simp) fun _ _ h => ?_
  by_cases hm : ch = '"' ∨ ch = '\\'
  · exact .mark hc (by simpa [standsWithin] using hm) h
  · exact .glyph hc (by simpa [isQuotedGlyph, hq, hch] using hm) h

theorem comesBack (hr : ∀ x ∈ r.head?, x ≠ '\'') (h : allowsSingle cs) : ComesBack n r cs := by
  induction hk : cs.length using Nat.strongRecOn generalizing cs with
  | ind k ih =>
    cases cs with
    | nil => exact comesBack_nil hr
    | cons x cs =>
      rw [List.length_cons] at hk
      have htail := allowsSingle_tail h
      by_cases hb : isBreak x
      · obtain ⟨bs, ds, rfl, hbs, hds⟩ := exists_span isBreak cs
        rw [List.length_append] at hk
        exact comesBack_breaks hb hbs h hds
          (ih ds.length (by omega) (allowsSingle_of_append htail) rfl)
      by_cases hs : x = ' '
      · obtain ⟨bs, ds, rfl, hbs, hds⟩ := exists_span (· == ' ') cs
        obtain ⟨j, rfl⟩ : ∃ j, bs = spaces j :=
          ⟨bs.length, List.eq_replicate_iff.2 ⟨rfl, by simpa using hbs⟩⟩
        rw [List.length_append] at hk
        subst hs
        exact comesBack_spaces h (by simpa using hds)
          (ih ds.length (by omega) (allowsSingle_of_append htail) rfl)
      have hmore := ih cs.length (by omega) htail rfl
      by_cases hq : x = '\''
      · subst hq
        exact comesBack_quote hmore
      · have hx := (allowsSingle_iff.1 h).2.2 x List.mem_cons_self
        rw [Bool.not_eq_true] at hb
        exact comesBack_glyph (plain_not_separates hx hs hb) hq hmore

/-- A scalar in single quotes that is followed by no further quote. -/
theorem quotedScalar_single (hc : c.rest = singleQuoted (n + 1) cs ++ r)
    (hr : ∀ x ∈ r.head?, x ≠ '\'') (h : allowsSingle cs) :
    quotedScalar false c = .ok (echo false cs, c.skip (singleQuoted (n + 1) cs).length) := by
  have hnext : c.next.rest = singleBody (n + 1) none cs ++ '\'' :: r := by
    rw [Cursor.rest_next, hc, singleQuoted]
    simp
  have hread := (comesBack hr h _ hnext).rest_eq (c.fuel + 1) ?_
  · rw [quotedScalar, hread, singleQuoted, List.length_append]
    rfl
  · rw [Cursor.fuel, Cursor.rest_next, List.length_drop]
    omega

end Reading

end BuildPipeline.Yaml
