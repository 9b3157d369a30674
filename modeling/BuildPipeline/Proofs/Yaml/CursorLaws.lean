import BuildPipeline.Yaml.Cursor

/-! Laws of cursors: where the moves lead, and what is at the front of a text that is known. -/

namespace BuildPipeline.Yaml

/-- A character that takes a column and does not end its line. -/
def takesColumn (ch : Char) : Bool := !(isBreak ch || ch == '\r' || ch == '\uFEFF')

theorem spaces_succ (n : Nat) : spaces (n + 1) = ' ' :: spaces n := List.replicate_succ

theorem length_spaces (n : Nat) : (spaces n).length = n := List.length_replicate

namespace Cursor

variable {c : Cursor} {ch : Char} {r cs : List Char} {p : Char → Bool} {m n : Nat}

@[simp] theorem rest_next (c : Cursor) : c.next.rest = c.rest.drop 1 := by
  obtain ⟨_ | ⟨ch, r⟩, _, _, _⟩ := c
  · rfl
  · simp only [next]
    split <;> rfl

@[simp] theorem rest_skip (n : Nat) (c : Cursor) : (c.skip n).rest = c.rest.drop n := by
  induction n generalizing c with
  | zero => rfl
  | succ n ih => rw [skip, ih, rest_next, List.drop_drop, Nat.add_comm]

theorem skip_add (m n : Nat) (c : Cursor) : c.skip (m + n) = (c.skip m).skip n := by
  induction m generalizing c with
  | zero => rw [Nat.zero_add]; rfl
  | succ m ih => rw [Nat.succ_add]; exact ih c.next

theorem next_eq (h : c.rest = ch :: r) (hch : takesColumn ch) :
    c.next = ⟨r, c.index + 1, c.line, c.column + 1⟩ := by
  obtain ⟨rest, _, _, _⟩ := c
  obtain rfl : rest = ch :: r := h
  simp only [takesColumn, Bool.not_eq_true', Bool.or_eq_false_iff] at hch
  obtain ⟨⟨hb, hr⟩, hm⟩ := hch
  simp [next, hb, hr, beq_eq_false_iff_ne.1 hm]

theorem line_le_next (c : Cursor) : c.line ≤ c.next.line := by
  obtain ⟨_ | ⟨ch, r⟩, _, _, _⟩ := c
  · exact Nat.le_refl _
  · simp only [next]
    split
    · exact Nat.le_succ _
    · exact Nat.le_refl _

theorem line_le_skip (n : Nat) (c : Cursor) : c.line ≤ (c.skip n).line := by
  induction n generalizing c with
  | zero => exact Nat.le_refl _
  | succ n ih => exact Nat.le_trans (line_le_next c) (ih c.next)

theorem next_newline (h : c.rest = '\n' :: r) : c.next = ⟨r, c.index + 1, c.line + 1, 0⟩ := by
  obtain ⟨rest, _, _, _⟩ := c
  obtain rfl : rest = '\n' :: r := h
  rfl

theorem skip_eq (h : c.rest = cs ++ r) (hcs : ∀ x ∈ cs, takesColumn x) :
    c.skip cs.length = ⟨r, c.index + cs.length, c.line, c.column + cs.length⟩ := by
  induction cs generalizing c with
  | nil => obtain ⟨_, _, _, _⟩ := c; cases h; rfl
  | cons x cs ih =>
    have hx : c.next = ⟨cs ++ r, c.index + 1, c.line, c.column + 1⟩ :=
      next_eq h (hcs x List.mem_cons_self)
    have hrest : c.next.rest = cs ++ r := by rw [hx]
    rw [List.length_cons, skip, ih hrest fun y hy => hcs y (List.mem_cons_of_mem _ hy), hx]
    simp only [mk.injEq, true_and]
    omega

/-- Behind a line feed and an indentation. -/
theorem skip_newline (h : c.rest = '\n' :: (spaces n ++ r)) :
    c.skip (n + 1) = ⟨r, c.index + (n + 1), c.line + 1, n⟩ := by
  have hnext : c.next.rest = spaces n ++ r := by rw [next_newline h]
  have hcols : ∀ x ∈ spaces n, takesColumn x := fun x hx => by
    rw [List.eq_of_mem_replicate hx]
    rfl
  rw [skip]
  have hskip := skip_eq hnext hcols
  rw [length_spaces, next_newline h] at hskip
  rw [next_newline h, hskip]
  simp only [mk.injEq, true_and, Nat.zero_add, and_true]
  omega

theorem front_eq (h : c.rest = ch :: r) : c.front = ch := by simp [front, peek, h]

theorem front_nil (h : c.rest = []) : c.front = '\x00' := by simp [front, peek, h]

theorem peek_succ (h : c.rest = ch :: r) (k : Nat) : c.peek (k + 1) = r.getD k '\x00' := by
  simp [peek, h]

theorem atEnd_eq_false (h : c.rest = ch :: r) (hch : ch ≠ '\x00') : c.atEnd = false := by
  rw [atEnd, front_eq h]
  exact beq_eq_false_iff_ne.2 hch

theorem takeWhile_append (hcs : ∀ x ∈ cs, p x) (hr : ∀ x ∈ r.head?, p x = false) :
    (cs ++ r).takeWhile p = cs := by
  rw [List.takeWhile_append_of_pos hcs]
  cases r with
  | nil => rw [List.takeWhile_nil, List.append_nil]
  | cons x r => rw [List.takeWhile_cons_of_neg (by simp [hr x rfl]), List.append_nil]

theorem span_eq (h : c.rest = cs ++ r) (hcs : ∀ x ∈ cs, p x) (hr : ∀ x ∈ r.head?, p x = false) :
    c.span p = (cs, c.skip cs.length) := by
  simp only [span, h, takeWhile_append hcs hr]

theorem dropWhile_eq (h : c.rest = cs ++ r) (hcs : ∀ x ∈ cs, p x)
    (hr : ∀ x ∈ r.head?, p x = false) : c.dropWhile p = c.skip cs.length := by
  rw [dropWhile, span_eq h hcs hr]

theorem span_none (h : p c.front = false) : c.span p = ([], c) := by
  obtain ⟨_ | ⟨x, r⟩, _, _, _⟩ := c
  · rfl
  · have hx : p x = false := by simpa [front, peek] using h
    simp [span, hx, skip]

theorem dropWhile_none (h : p c.front = false) : c.dropWhile p = c := by
  rw [dropWhile, span_none h]

/-- What a reader takes a line break for. -/
def breakRead (b : Char) : Char := if b = '\u0085' then '\n' else b

theorem lineBreak_eq (h : c.rest = ch :: r) (hch : isBreak ch) :
    c.lineBreak = some (breakRead ch, c.next) := by
  simp only [isBreak, Bool.or_eq_true, beq_iff_eq] at hch
  rcases hch with ((rfl | rfl) | rfl) | rfl <;>
    simp [lineBreak, front_eq h, breakRead, startsWith, h, List.isPrefixOf]

theorem lineBreak_eq_none (hr : c.front ≠ '\r') (hb : isBreak c.front = false) :
    c.lineBreak = none := by
  simp only [isBreak, Bool.or_eq_false_iff, beq_eq_false_iff_ne] at hb
  simp [lineBreak, hr, hb]

end Cursor

end BuildPipeline.Yaml
