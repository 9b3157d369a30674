import BuildPipeline.Proofs.TableLaws
import BuildPipeline.Validation

/-!
The two indexes of blocks. The lenient one finds the first block of each identifier; the strict one,
which validation fills, has no block that the lenient one has not, and all of them if nothing is
wrong with the identifiers.
-/

namespace BuildPipeline

section Index

variable {κ α : Type} [BEq κ]

/-- The index shows the first value under a key. -/
theorem get?_indexFirst [LawfulBEq κ] (es : List (κ × α)) (k : κ) :
    Table.get? (indexFirst es) k = (es.find? (·.1 == k)).map (·.2) := by
  suffices hfold : ∀ t : Table κ α,
      Table.get? (es.foldl (fun t e => Table.insertNew t e.1 e.2) t) k
        = (Table.get? t k).or ((es.find? (·.1 == k)).map (·.2)) from hfold []
  induction es with
  | nil => simp
  | cons e es ih =>
    intro t
    rw [List.foldl_cons, ih, Table.get?_insertNew, List.find?_cons]
    by_cases he : e.1 == k <;> simp [he]

theorem get?_index (bs : List Block) (id : String) :
    Table.get? (Block.index bs) id = bs.find? (·.id == id) := by
  rw [Block.index, get?_indexFirst, List.find?_map, Option.map_map]
  exact Option.map_id'

end Index

section Registry

variable {α : Type} {r r' : Registry α} {id : String} {a : α}

theorem Registry.add_eq_ok : r.add (.str id) a = .ok r' ↔ Text.isBlankText id = false
    ∧ r.contains id = false ∧ ⟨Table.insert r.blocks id a, r.order ++ [id]⟩ = r' := by
  rw [add, contains]
  cases Text.isBlankText id <;> cases Table.contains r.blocks id <;> simp

theorem Registry.contains_add (h : r.add (.str id) a = .ok r') (id' : String) :
    r'.contains id' ↔ r.contains id' ∨ id = id' := by
  obtain ⟨-, -, rfl⟩ := add_eq_ok.1 h
  rw [contains, contains, Table.contains, Table.contains, Table.get?_insert]
  by_cases hid : id = id' <;> simp [hid]

end Registry

namespace Definition

variable {r : Registry Block} {b : Block} {bs : List Block} {id : String}

theorem contains_blockIssues (h : (blockIssues r b).1.contains id) :
    r.contains id ∨ b.id = id := by
  rw [blockIssues] at h
  cases hadd : r.add (.str b.id) b with
  | ok r' =>
    rw [hadd] at h
    exact (Registry.contains_add hadd id).1 h
  | error e =>
    rw [hadd] at h
    cases e <;> exact .inl h

/-- A registry knows the blocks that were offered to it and no others. -/
theorem contains_registerFrom (h : (registerFrom r bs).1.contains id) :
    r.contains id ∨ ∃ b ∈ bs, b.id = id := by
  induction bs generalizing r with
  | nil => exact .inl h
  | cons b bs ih =>
    rcases ih h with h | ⟨b', hb', rfl⟩
    · exact (contains_blockIssues h).imp_right fun hid => ⟨b, List.mem_cons_self, hid⟩
    · exact .inr ⟨b', List.mem_cons_of_mem b hb', rfl⟩

/-- A block without issues is registered under an identifier of its own. -/
theorem add_of_blockIssues (h : (blockIssues r b).2 = []) : r.contains b.id = false
    ∧ ∀ id, (blockIssues r b).1.contains id ↔ r.contains id ∨ b.id = id := by
  rw [blockIssues] at h ⊢
  cases hadd : r.add (.str b.id) b with
  | ok r' => exact ⟨(Registry.add_eq_ok.1 hadd).2.1, Registry.contains_add hadd⟩
  | error e =>
    rw [hadd] at h
    cases e <;> simp at h

theorem registerFrom_cons (r : Registry Block) (b : Block) (bs : List Block) :
    registerFrom r (b :: bs) = ((registerFrom (blockIssues r b).1 bs).1,
      (blockIssues r b).2 ++ (registerFrom (blockIssues r b).1 bs).2) := rfl

theorem distinct_of_registerFrom (h : (registerFrom r bs).2 = []) :
    (∀ b ∈ bs, r.contains b.id = false) ∧ bs.Pairwise fun b b' => b.id ≠ b'.id := by
  induction bs generalizing r with
  | nil => exact ⟨by simp, .nil⟩
  | cons b bs ih =>
    rw [registerFrom_cons] at h
    obtain ⟨hhere, hrest⟩ := List.append_eq_nil_iff.1 h
    obtain ⟨hnew, hcontains⟩ := add_of_blockIssues hhere
    obtain ⟨hfresh, hpairwise⟩ := ih hrest
    have hother (b') (hb' : b' ∈ bs) : ¬(r.contains b'.id ∨ b.id = b'.id) := by
      rw [← hcontains, hfresh b' hb']
      decide
    refine ⟨List.forall_mem_cons.2 ⟨hnew, fun b' hb' => ?_⟩,
      List.pairwise_cons.2 ⟨fun b' hb' hid => hother b' hb' (.inr hid), hpairwise⟩⟩
    exact Bool.eq_false_iff.2 fun hb => hother b' hb' (.inl hb)

end Definition

end BuildPipeline
