import BuildPipeline.Proofs.Yaml.WrittenScalars
import BuildPipeline.Yaml.Reader

/-! Every character that is written shows as it is, so that a reader takes the text. -/

namespace BuildPipeline.Yaml

variable {cs ds : List Char} {ch : Char} {i : Nat}

/-- A text of characters that show as they are. -/
def Shows (cs : List Char) : Prop := ∀ x ∈ cs, isPlainGlyph x

instance (cs : List Char) : Decidable (Shows cs) :=
  decidable_of_iff (cs.all isPlainGlyph) List.all_eq_true

theorem isReadable_of_plainGlyph (h : isPlainGlyph ch) : isReadable ch := by
  have hvalid : ch.toNat < 0xD800 ∨ 0xDFFF < ch.toNat := by
    rcases ch.valid with hv | hv
    · exact .inl hv
    · exact .inr hv.1
  simp only [isPlainGlyph, Bool.and_eq_true, Bool.or_eq_true, decide_eq_true_eq, beq_iff_eq,
    bne_iff_ne] at h
  simp only [isReadable, Bool.and_eq_true, Bool.or_eq_true, decide_eq_true_eq, beq_iff_eq]
  rcases h with (rfl | h) | h
  · simp
  · omega
  · omega

section Texts

theorem shows_nil : Shows [] := by simp [Shows]

theorem shows_cons : Shows (ch :: cs) ↔ isPlainGlyph ch ∧ Shows cs := List.forall_mem_cons

theorem shows_append : Shows (cs ++ ds) ↔ Shows cs ∧ Shows ds := List.forall_mem_append

theorem shows_spaces (n : Nat) : Shows (spaces n) := fun x hx => by
  rw [List.eq_of_mem_replicate hx]
  rfl

theorem shows_newline (n : Nat) : Shows (newline n) := shows_cons.2 ⟨rfl, shows_spaces n⟩

theorem shows_joinLines {ls : List (List Char)} (h : ∀ l ∈ ls, Shows l) :
    Shows (joinLines i ls) := by
  induction ls with
  | nil => exact shows_nil
  | cons l ls ih =>
    obtain ⟨hl, hls⟩ := List.forall_mem_cons.1 h
    cases ls with
    | nil => exact hl
    | cons l' ls =>
      rw [joinLines]
      · exact shows_append.2 ⟨shows_append.2 ⟨hl, shows_newline i⟩, ih hls⟩
      · simp

end Texts

section Scalars

theorem shows_singleBody (p : Option Char) (h : Shows cs) : Shows (singleBody i p cs) := by
  induction cs generalizing p with
  | nil =>
    cases p with
    | none => exact shows_nil
    | some p =>
      rw [singleBody]
      split
      · exact shows_spaces i
      · exact shows_nil
  | cons x cs ih =>
    obtain ⟨hx, hcs⟩ := shows_cons.1 h
    rw [singleBody]
    refine shows_append.2 ⟨shows_append.2 ⟨?_, ?_⟩, ih _ hcs⟩
    · split
      · split
        · exact shows_cons.2 ⟨rfl, shows_nil⟩
        · exact shows_nil
      · split
        · exact shows_spaces i
        · exact shows_nil
    · split
      · exact shows_cons.2 ⟨rfl, shows_cons.2 ⟨rfl, shows_nil⟩⟩
      · exact shows_cons.2 ⟨hx, shows_nil⟩

theorem shows_writeScalar (i : Nat) (simple : Bool) (s : Scalar) :
    Shows (writeScalar i simple s) := by
  rw [writeScalar_eq]
  cases h : scalarStyle simple s with
  | plain =>
    have hbare := bare_of_allowsPlain (styleOf_plain h).2 (plain_ne_nil h)
    exact fun x hx => (hbare.glyphs x hx).1
  | single =>
    have hglyph := (allowsSingle_iff.1 (styleOf_single h).1).2.2
    rw [Style.write, singleQuoted]
    exact shows_append.2 ⟨shows_cons.2 ⟨rfl, shows_singleBody none hglyph⟩,
      shows_cons.2 ⟨rfl, shows_nil⟩⟩
  | double => exact fun x hx => (isLineGlyph_iff.1 (isLineGlyph_doubleQuoted hx)).1

end Scalars

section Values

variable {place : Place} {ls : Nat → List (List Char)}

theorem shows_listLines (h : ∀ n, ∀ l ∈ ls n, Shows l) : Shows (listLines i place ls) := by
  cases place with
  | mark => exact shows_cons.2 ⟨rfl, shows_joinLines (h _)⟩
  | key => exact shows_append.2 ⟨shows_newline i, shows_joinLines (h _)⟩

theorem shows_dictLines (h : ∀ n, ∀ l ∈ ls n, Shows l) : Shows (dictLines i place ls) := by
  cases place with
  | mark => exact shows_cons.2 ⟨rfl, shows_joinLines (h _)⟩
  | key => exact shows_append.2 ⟨shows_newline _, shows_joinLines (h _)⟩

mutual

theorem shows_node : ∀ (place : Place) (i : Nat) (v : Value), Shows (node place i v)
  | _, i, .scalar s => shows_cons.2 ⟨rfl, shows_writeScalar (i + 2) false s⟩
  | _, _, .list [] => by rw [node]; decide
  | _, _, .list (v :: vs) => shows_listLines fun n => List.forall_mem_cons.2
      ⟨shows_cons.2 ⟨rfl, shows_node .mark n v⟩, shows_items n vs⟩
  | _, _, .pair k v => shows_listLines fun n => List.forall_mem_cons.2
      ⟨shows_cons.2 ⟨rfl, shows_node .mark n k⟩, List.forall_mem_singleton.2
        (shows_cons.2 ⟨rfl, shows_node .mark n v⟩)⟩
  | _, _, .dict [] => by rw [node]; decide
  | _, _, .dict (e :: es) => shows_dictLines fun n => shows_entries n (e :: es)
  | _, _, .set _ => by rw [node]; decide
  | _, _, .loop _ => by rw [node]; decide

theorem shows_items : ∀ (i : Nat) (vs : List Value), ∀ l ∈ items i vs, Shows l
  | _, [] => by simp [items]
  | i, v :: vs => List.forall_mem_cons.2
      ⟨shows_cons.2 ⟨rfl, shows_node .mark i v⟩, shows_items i vs⟩

theorem shows_entries : ∀ (i : Nat) (es : List (Scalar × Value)), ∀ l ∈ entries i es, Shows l
  | _, [] => by simp [entries]
  | i, (k, v) :: es => by
    rw [entries, List.forall_mem_cons]
    refine ⟨?_, shows_entries i es⟩
    split
    · exact shows_append.2 ⟨shows_writeScalar i true k, shows_cons.2 ⟨rfl, shows_node .key i v⟩⟩
    · exact shows_append.2 ⟨shows_append.2 ⟨shows_cons.2 ⟨rfl, shows_cons.2
        ⟨rfl, shows_writeScalar (i + 2) false k⟩⟩, shows_newline i⟩,
        shows_cons.2 ⟨rfl, shows_node .mark i v⟩⟩

end

end Values

theorem shows_write (d : Dict) : Shows (write d).toList := by
  rw [write, String.toList_ofList]
  split
  · decide
  · exact shows_append.2 ⟨shows_joinLines (shows_entries 0 d), shows_cons.2 ⟨rfl, shows_nil⟩⟩

theorem all_isReadable (d : Dict) : (write d).toList.all isReadable :=
  List.all_eq_true.2 fun x hx => isReadable_of_plainGlyph (shows_write d x hx)

theorem read_write_of_node {d : Dict} {n : Node} (h : Node.read? (write d).toList = .ok (some n)) :
    read (write d) = n.value := by
  rw [read, readChars, if_pos (all_isReadable d), h]
  rfl

theorem exists_node_of_read_write {d : Dict} {v : Value} (h : read (write d) = .ok v) :
    ∃ n, Node.read? (write d).toList = .ok n := by
  rw [read, readChars, if_pos (all_isReadable d)] at h
  cases hread : Node.read? (write d).toList with
  | error e =>
    rw [hread] at h
    cases h
  | ok n => exact ⟨n, rfl⟩

end BuildPipeline.Yaml
