import BuildPipeline.BuildSpec.Render
import BuildPipeline.Proofs.Yaml.WrittenScalars
import BuildPipeline.Yaml.Fold
import Mathlib.Data.List.DropRight

/-! Without a bound on the width nothing is folded: a scalar without line breaks is written
character by character on one line. -/

namespace BuildPipeline.Yaml

variable {cs : List Char} {i column : Nat} {p : Option Char} {s : Scalar} {simple : Bool}

section Unfolded

theorem foldPlain_none : foldPlain none i p column cs = cs := by
  induction cs generalizing p column with
  | nil => rfl
  | cons c cs ih => simp [foldPlain, exceeds, ih]

theorem foldSingle_none : foldSingle none i p column cs = singleBody i p cs := by
  induction cs generalizing p column with
  | nil => cases p <;> rfl
  | cons c cs ih => simp [foldSingle, singleBody, exceeds, ih]

theorem foldDouble_none {escaped : Option Bool} :
    foldDouble none i escaped column cs = cs.flatMap doubleChar := by
  induction cs generalizing escaped column with
  | nil => rfl
  | cons c cs ih => simp [foldDouble, exceeds, ih]

theorem Style.fold_none (style : Style) : style.fold none i column cs = style.write i cs := by
  cases style with
  | plain => exact foldPlain_none
  | single => rw [Style.fold, foldSingle_none, Style.write, singleQuoted]
  | double => rw [Style.fold, foldDouble_none, Style.write, doubleQuoted]

def Piece.text : Piece → List Char
  | .layout cs => cs
  | .scalar i simple s => writeScalar i simple s

theorem Piece.fold_none (p : Piece) (column : Nat) : p.fold none column = p.text := by
  cases p with
  | layout => rfl
  | scalar i simple s =>
    rw [Piece.fold, ite_self]
    exact Style.fold_none _

/-- The text of parts that nothing is folded in. -/
def textOf (ps : List Piece) : List Char := ps.flatMap Piece.text

theorem foldPieces_none (ps : List Piece) (column : Nat) :
    foldPieces none column ps = textOf ps := by
  induction ps generalizing column with
  | nil => rfl
  | cons p ps ih => rw [foldPieces, ih, p.fold_none, textOf, textOf, List.flatMap_cons]

end Unfolded

section Parts

variable {ps qs : List Piece} {place : Place} {lines : Nat → List (List Piece)}
  {texts : Nat → List (List Char)} {ks : List Scalar}

theorem textOf_append : textOf (ps ++ qs) = textOf ps ++ textOf qs := List.flatMap_append

theorem textOf_layout : textOf (.layout cs :: ps) = cs ++ textOf ps := List.flatMap_cons

theorem textOf_scalar : textOf (.scalar i simple s :: ps) = writeScalar i simple s ++ textOf ps :=
  List.flatMap_cons

theorem joinPieces_cons (l l' : List Piece) (ls : List (List Piece)) :
    joinPieces i (l :: l' :: ls) = l ++ .layout (newline i) :: joinPieces i (l' :: ls) := rfl

theorem textOf_joinPieces (ls : List (List Piece)) :
    textOf (joinPieces i ls) = joinLines i (ls.map textOf) := by
  induction ls with
  | nil => rfl
  | cons l ls ih =>
    cases ls with
    | nil => rfl
    | cons l' ls =>
      rw [joinPieces_cons, textOf_append, textOf_layout, ih, ← List.append_assoc]
      rfl

theorem textOf_listPieces (h : ∀ n, (lines n).map textOf = texts n) :
    textOf (listPieces i place lines) = listLines i place texts := by
  cases place <;> rw [listPieces, textOf_layout, textOf_joinPieces, h] <;> rfl

theorem textOf_dictPieces (h : ∀ n, (lines n).map textOf = texts n) :
    textOf (dictPieces i place lines) = dictLines i place texts := by
  cases place <;> rw [dictPieces, textOf_layout, textOf_joinPieces, h] <;> rfl

theorem textOf_entry {k : Scalar} {v : Value} {es : List (Scalar × Value)}
    (h : ∀ place, textOf (nodePieces place i v) = node place i v) :
    textOf (keyPieces i k ++ nodePieces (keyPlace k) i v)
        :: entries i es = entries i ((k, v) :: es) := by
  rw [textOf_append, h, entries, keyPieces, keyPlace]
  split <;> simp [textOf, Piece.text]

mutual

theorem textOf_node : ∀ (place : Place) (i : Nat) (v : Value),
    textOf (nodePieces place i v) = node place i v
  | _, _, .scalar s => by rw [nodePieces, textOf_layout, textOf_scalar, node]; simp [textOf]
  | _, _, .list [] => by rw [nodePieces, node]; rfl
  | _, _, .list (v :: vs) => by
    rw [nodePieces, node]
    refine textOf_listPieces fun n => ?_
    rw [List.map_cons, textOf_layout, textOf_node, textOf_items, List.singleton_append]
  | _, _, .pair k v => by
    rw [nodePieces, node]
    refine textOf_listPieces fun n => ?_
    rw [List.map_cons, List.map_singleton, textOf_layout, textOf_layout, textOf_node, textOf_node,
      List.singleton_append, List.singleton_append]
  | _, _, .dict [] => by rw [nodePieces, node]; rfl
  | _, _, .dict (e :: es) => by
    rw [nodePieces, node]
    exact textOf_dictPieces fun n => textOf_entries n (e :: es)
  | _, _, .set _ => by rw [nodePieces, node]; rfl
  | _, _, .loop _ => by rw [nodePieces, node]; rfl

theorem textOf_items : ∀ (i : Nat) (vs : List Value), (itemPieces i vs).map textOf = items i vs
  | _, [] => rfl
  | i, v :: vs => by
    rw [itemPieces, List.map_cons, textOf_layout, textOf_node, textOf_items, items,
      List.singleton_append]

theorem textOf_entries : ∀ (i : Nat) (es : List (Scalar × Value)),
    (entryPieces i es).map textOf = entries i es
  | _, [] => rfl
  | i, (k, v) :: es => by
    rw [entryPieces, List.map_cons, textOf_entries i es]
    exact textOf_entry fun place => textOf_node place i v

end

/-- The text of a document is that of its parts. -/
theorem textOf_pieces (d : Dict) : textOf (pieces d) = (write d).toList := by
  rw [pieces, write]
  split
  · rfl
  · rw [textOf_append, textOf_joinPieces, textOf_entries, String.toList_ofList]
    rfl

theorem writeWithin_none (d : Dict) : writeWithin none d = write d := by
  rw [writeWithin, foldPieces_none, textOf_pieces, String.ofList_toList]

example : writeWithin (some 20) [(.str "on", .str "make install and then make check")]
    = "'on': make install and\n  then make check\n" := by decide +kernel

/-- The scalars that parts write. -/
def scalarsIn (ps : List Piece) : List Scalar := ps.filterMap Piece.scalar?

theorem scalarsIn_append : scalarsIn (ps ++ qs) = scalarsIn ps ++ scalarsIn qs :=
  List.filterMap_append

theorem scalarsIn_layout : scalarsIn (.layout cs :: ps) = scalarsIn ps := rfl

theorem scalarsIn_joinPieces (ls : List (List Piece)) :
    scalarsIn (joinPieces i ls) = ls.flatMap scalarsIn := by
  induction ls with
  | nil => rfl
  | cons l ls ih =>
    cases ls with
    | nil => rw [joinPieces, List.flatMap_singleton]
    | cons l' ls =>
      rw [joinPieces_cons, scalarsIn_append, scalarsIn_layout, ih]
      rfl

theorem scalarsIn_listPieces (h : ∀ n, (lines n).flatMap scalarsIn = ks) :
    scalarsIn (listPieces i place lines) = ks := by
  cases place <;> rw [listPieces, scalarsIn_layout, scalarsIn_joinPieces, h]

theorem scalarsIn_dictPieces (h : ∀ n, (lines n).flatMap scalarsIn = ks) :
    scalarsIn (dictPieces i place lines) = ks := by
  cases place <;> rw [dictPieces, scalarsIn_layout, scalarsIn_joinPieces, h]

theorem scalarsIn_keyPieces (k : Scalar) : scalarsIn (keyPieces i k) = [k] := by
  rw [keyPieces]
  split <;> rfl

mutual

theorem scalarsIn_node : ∀ (place : Place) (i : Nat) (v : Value),
    scalarsIn (nodePieces place i v) = v.scalars
  | _, _, .scalar s => by rw [nodePieces, Value.scalars]; rfl
  | _, _, .list [] => by rw [nodePieces, Value.scalars]; rfl
  | _, _, .list (v :: vs) => by
    rw [nodePieces, Value.scalars]
    refine scalarsIn_listPieces fun n => ?_
    rw [List.flatMap_cons, scalarsIn_layout, scalarsIn_node, scalarsIn_items, Value.scalarsOfAll]
  | _, _, .pair k v => by
    rw [nodePieces, Value.scalars]
    refine scalarsIn_listPieces fun n => ?_
    rw [List.flatMap_cons, List.flatMap_singleton, scalarsIn_layout, scalarsIn_layout,
      scalarsIn_node, scalarsIn_node]
  | _, _, .dict [] => by rw [nodePieces, Value.scalars]; rfl
  | _, _, .dict (e :: es) => by
    rw [nodePieces, Value.scalars]
    exact scalarsIn_dictPieces fun n => scalarsIn_entries n (e :: es)
  | _, _, .set _ => by rw [nodePieces, Value.scalars]; rfl
  | _, _, .loop _ => by rw [nodePieces, Value.scalars]; rfl

theorem scalarsIn_items : ∀ (i : Nat) (vs : List Value),
    (itemPieces i vs).flatMap scalarsIn = Value.scalarsOfAll vs
  | _, [] => rfl
  | i, v :: vs => by
    rw [itemPieces, List.flatMap_cons, scalarsIn_layout, scalarsIn_node, scalarsIn_items,
      Value.scalarsOfAll]

theorem scalarsIn_entries : ∀ (i : Nat) (es : List (Scalar × Value)),
    (entryPieces i es).flatMap scalarsIn = Value.scalarsOfEntries es
  | _, [] => rfl
  | i, (k, v) :: es => by
    rw [entryPieces, List.flatMap_cons, scalarsIn_append, scalarsIn_keyPieces, scalarsIn_node,
      scalarsIn_entries, Value.scalarsOfEntries, List.singleton_append, List.cons_append]

end

/-- The parts of a text write the keys and scalars of the document in their order. -/
theorem scalarsIn_pieces (d : Dict) : scalarsIn (pieces d) = (Value.dict d).scalars := by
  rw [pieces, Value.scalars]
  split
  · rename_i h
    rw [List.isEmpty_iff.1 h]
    rfl
  · rw [scalarsIn_append, scalarsIn_joinPieces, scalarsIn_entries, scalarsIn_layout]
    exact List.append_nil _

end Parts

section OneLine

/-- What stands around a text in a style. -/
def Style.quote : Style → List Char
  | .plain => []
  | .single => ['\'']
  | .double => ['"']

/-- A character that is no line break, in a style. -/
def Style.glyph : Style → Char → List Char
  | .plain, c => [c]
  | .single, c => if c == '\'' then ['\'', '\''] else [c]
  | .double, c => doubleChar c

/-- A text in a style, character by character. -/
def Style.oneLine (style : Style) (cs : List Char) : List Char :=
  style.quote ++ cs.flatMap style.glyph ++ style.quote

theorem singleBody_oneLine (h : ∀ x ∈ cs, isBreak x = false) :
    singleBody i none cs = cs.flatMap Style.single.glyph := by
  induction cs with
  | nil => rfl
  | cons c cs ih =>
    obtain ⟨hc, hcs⟩ := List.forall_mem_cons.1 h
    rw [singleBody_cons hc, ih hcs, List.flatMap_cons, Style.glyph]

/-- Without line breaks nothing is written between the characters of a text. -/
theorem Style.write_oneLine (style : Style) (h : ∀ x ∈ cs, isBreak x = false) :
    style.write i cs = style.oneLine cs := by
  cases style with
  | plain =>
    rw [oneLine, quote, List.nil_append, List.append_nil]
    exact (List.flatMap_singleton' cs).symm
  | single =>
    rw [Style.write, singleQuoted, singleBody_oneLine h]
    rfl
  | double => rfl

/-- Whether a character ends a line wherever lines are told apart. -/
def endsPhysicalLine (c : Char) : Bool :=
  c == '\r' || c == '\x0b' || c == '\x0c' || c == '\x1c' || c == '\x1d' || c == '\x1e' || isBreak c

def physicalLines (cs : List Char) : List (List Char) := cs.splitOnP endsPhysicalLine

theorem not_endsPhysicalLine_of_lineGlyph {c : Char} (h : isLineGlyph c) :
    endsPhysicalLine c = false := by
  rw [endsPhysicalLine, (isLineGlyph_iff.1 h).2]
  simp only [Bool.or_false, Bool.or_eq_false_iff, beq_eq_false_iff_ne]
  refine ⟨⟨⟨⟨⟨?_, ?_⟩, ?_⟩, ?_⟩, ?_⟩, ?_⟩ <;> rintro rfl <;> exact absurd h (by decide)

section Split

variable {α : Type} {p : α → Bool}

theorem head_splitOnP (xs : List α) : (xs.splitOnP p)[0]? = some (xs.takeWhile (!p ·)) := by
  induction xs with
  | nil => rfl
  | cons x xs ih =>
    rw [List.splitOnP_cons_eq_if_modifyHead, List.takeWhile_cons]
    cases hx : p x with
    | true => rfl
    | false =>
      rw [if_neg (by simp), List.getElem?_modifyHead_zero, ih]
      rfl

theorem length_splitOnP (xs : List α) : (xs.splitOnP p).length = xs.countP p + 1 := by
  induction xs with
  | nil => rfl
  | cons x xs ih =>
    rw [List.splitOnP_cons_eq_if_modifyHead, List.countP_cons]
    split <;> simp [ih]

/-- Without an end in it, a text stands as a whole on the line that the ends before it count. -/
theorem getElem?_splitOnP (as bs : List α) {ws : List α} (h : ∀ x ∈ ws, p x = false) :
    ((as ++ (ws ++ bs)).splitOnP p)[as.countP p]?
      = some (as.rtakeWhile (!p ·) ++ ws ++ bs.takeWhile (!p ·)) := by
  -- from the end of `as`: a character that ends no line goes over to the text
  induction as using List.reverseRecOn generalizing ws with
  | nil =>
    rw [List.nil_append, List.countP_nil, head_splitOnP,
      List.takeWhile_append_of_pos (by simpa using h)]
    rfl
  | append_singleton as x ih =>
    rw [List.append_assoc, List.singleton_append, List.countP_append, List.countP_singleton]
    cases hx : p x with
    | true =>
      rw [List.splitOnP_append_cons _ _ hx, if_pos rfl, ← length_splitOnP,
        List.getElem?_append_right (Nat.le_refl _), Nat.sub_self, head_splitOnP,
        List.takeWhile_append_of_pos (by simpa using h), List.rtakeWhile_concat,
        if_neg (by simp [hx])]
      rfl
    | false =>
      have hws : ∀ y ∈ x :: ws, p y = false := List.forall_mem_cons.2 ⟨hx, h⟩
      rw [if_neg (by simp), Nat.add_zero, ← List.cons_append, ih hws,
        List.rtakeWhile_concat, if_pos (by simp [hx])]
      simp

end Split

end OneLine

end BuildPipeline.Yaml

namespace BuildPipeline.BuildSpec

open Yaml (Piece pieces textOf scalarsIn scalarParts scalarStyle isBreak physicalLines
  endsPhysicalLine)

/-- The text of a specification is written as on lines of unbounded width. Its parts write the keys
and scalars of the document in their order, and each of them that has no line break is written
character by character on one physical line. -/
theorem render_unfolded (s : BuildSpec) :
    s.render = Yaml.writeWithin none s.document
    ∧ scalarsIn (pieces s.document) = (Value.dict s.document).scalars
    ∧ ∀ before after i simple k, pieces s.document = before ++ .scalar i simple k :: after →
      (∀ x ∈ (scalarParts k).2.toList, isBreak x = false) →
      let written := (scalarStyle simple k).oneLine (scalarParts k).2.toList
      s.render.toList = textOf before ++ (written ++ textOf after)
      ∧ (physicalLines s.render.toList)[(textOf before).countP endsPhysicalLine]?
        = some ((textOf before).rtakeWhile (!endsPhysicalLine ·) ++ written
          ++ (textOf after).takeWhile (!endsPhysicalLine ·)) := by
  refine ⟨(Yaml.writeWithin_none _).symm, Yaml.scalarsIn_pieces _, ?_⟩
  intro before after i simple k hpieces hline written
  have hwritten : Yaml.writeScalar i simple k = written := Yaml.Style.write_oneLine _ hline
  have htext : s.render.toList = textOf before ++ (written ++ textOf after) := by
    rw [render, ← Yaml.textOf_pieces, hpieces, Yaml.textOf_append, Yaml.textOf_scalar, hwritten]
  have hends : ∀ x ∈ written, endsPhysicalLine x = false := by
    rw [← hwritten]
    exact fun x hx => Yaml.not_endsPhysicalLine_of_lineGlyph
      (Yaml.isLineGlyph_writeScalar hline i simple x hx)
  refine ⟨htext, ?_⟩
  rw [htext]
  exact Yaml.getElem?_splitOnP _ _ hends

/-- A command of 87 characters, and a tabulator that takes double quotes. -/
def wordy : BuildSpec :=
  { empty with
    phases := [("build",
      ⟨["make test && make lint && make docs && make dist && make sign && make push && make done"],
        none, []⟩)]
    environment := [("NOTE", "it's\ta value")] }

theorem render_unfolded_wordy :
    (physicalLines wordy.render.toList)[4]?
      = some ("    - make test && make lint && make docs && make dist && make sign && make push "
        ++ "&& make done").toList
    ∧ (physicalLines wordy.render.toList)[7]? = some ("    NOTE: \"it's\\ta value\"".toList) := by
  have line (n row : Nat) (k : Scalar)
      (hpieces : pieces wordy.document = (pieces wordy.document).take n
        ++ .scalar 6 false k :: (pieces wordy.document).drop (n + 1))
      (hline : (scalarParts k).2.toList.all (!isBreak ·) = true)
      (hrow : (textOf ((pieces wordy.document).take n)).countP endsPhysicalLine = row) :
      (physicalLines wordy.render.toList)[row]?
        = some ((textOf ((pieces wordy.document).take n)).rtakeWhile (!endsPhysicalLine ·)
          ++ (scalarStyle false k).oneLine (scalarParts k).2.toList
          ++ (textOf ((pieces wordy.document).drop (n + 1))).takeWhile (!endsPhysicalLine ·)) := by
    rw [← hrow]
    have hline : ∀ x ∈ (scalarParts k).2.toList, isBreak x = false := by simpa using hline
    exact ((render_unfolded wordy).2.2 _ _ 6 false k hpieces hline).2
  have hcommand := line 16 4
    (.str "make test && make lint && make docs && make dist && make sign && make push && make done")
    (by decide +kernel) (by decide +kernel) (by decide +kernel)
  have hvalue := line 27 7 (.str "it's\ta value")
    (by decide +kernel) (by decide +kernel) (by decide +kernel)
  refine ⟨hcommand.trans ?_, hvalue.trans ?_⟩
  · decide +kernel
  · decide +kernel

end BuildPipeline.BuildSpec
