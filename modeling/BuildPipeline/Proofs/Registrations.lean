import BuildPipeline.Proofs.BlockIndexes
import BuildPipeline.Proofs.DepthFirst

/-! Registrations.  A registry that is offered the blocks of a list one by one holds the first block of
each identifier that is not blank: what the lenient index holds, less the blank identifiers. -/

namespace BuildPipeline

namespace Registry

/-- The registry after a block was offered to it, which may be refused. -/
def offer (r : Registry Block) (b : Block) : Registry Block :=
  match r.add (.str b.id) b with
  | .ok r' => r'
  | .error _ => r

/-- The registry after blocks were offered to it one by one. -/
def offerAll (r : Registry Block) (bs : List Block) : Registry Block := bs.foldl offer r

def visibleIds (bs : List Block) : List String := (bs.map (·.id)).filter (!Text.isBlankText ·)

/-- What a registry holds of the blocks that it was offered: the first one of each identifier that is
not blank, and these identifiers in order of declaration. -/
structure Holds (r : Registry Block) (bs : List Block) : Prop where
  get? (id : String) : r.get? id = if Text.isBlankText id then none else bs.find? (·.id == id)
  order : r.order = firsts (visibleIds bs)

variable {r r' : Registry Block} {b : Block} {bs : List Block} {id : String} {e : RegistryError}

section Steps

theorem contains_eq (r : Registry Block) (id : String) : r.contains id = (r.get? id).isSome := rfl

theorem add_eq_error : r.add (.str id) b = .error e ↔ Text.isBlankText id ∧ e = .blankId
    ∨ Text.isBlankText id = false ∧ r.contains id ∧ e = .duplicate id := by
  rw [add, contains]
  cases Text.isBlankText id <;> cases Table.contains r.blocks id <;> simp [eq_comm]

theorem offer_of_error (h : r.add (.str b.id) b = .error e) : r.offer b = r := by
  rw [offer, h]

theorem offer_of_ok (h : r.add (.str b.id) b = .ok r') : r.offer b = r' := by
  rw [offer, h]

theorem get?_of_ok (h : r.add (.str b.id) b = .ok r') (id : String) :
    r'.get? id = if b.id = id then some b else r.get? id := by
  obtain ⟨-, -, rfl⟩ := add_eq_ok.1 h
  simp [Registry.get?, Table.get?_insert]

theorem order_of_ok (h : r.add (.str b.id) b = .ok r') : r'.order = r.order ++ [b.id] := by
  obtain ⟨-, -, rfl⟩ := add_eq_ok.1 h
  rfl

end Steps

section Offers

theorem visibleIds_append_of_blank (h : Text.isBlankText b.id) :
    visibleIds (bs ++ [b]) = visibleIds bs := by
  simp [visibleIds, h]

theorem visibleIds_append_of_visible (h : Text.isBlankText b.id = false) :
    visibleIds (bs ++ [b]) = visibleIds bs ++ [b.id] := by
  simp [visibleIds, h]

theorem find?_append_block (bs : List Block) (b : Block) (id : String) :
    (bs ++ [b]).find? (·.id == id)
      = (bs.find? (·.id == id)).or (if b.id = id then some b else none) := by
  by_cases hid : b.id = id <;> simp [List.find?_append, hid]

namespace Holds

theorem mem_order (h : r.Holds bs) : id ∈ r.order ↔ r.contains id := by
  have hfound : (bs.find? (·.id == id)).isSome ↔ ∃ b ∈ bs, b.id = id := by simp
  rw [h.order, mem_firsts, visibleIds, List.mem_filter, List.mem_map, ← hfound, contains_eq,
    h.get? id]
  cases Text.isBlankText id <;> simp

theorem contains_iff (h : r.Holds bs) (hvisible : Text.isBlankText id = false) :
    r.contains id ↔ ∃ b ∈ bs, b.id = id := by
  simp [contains_eq, h.get? id, hvisible]

/-- A refused block adds nothing that is to be held. -/
theorem offer_refused (h : r.Holds bs) (hadd : r.add (.str b.id) b = .error e) :
    r.Holds (bs ++ [b]) := by
  rcases add_eq_error.1 hadd with ⟨hblank, -⟩ | ⟨hvisible, hcontains, -⟩
  -- nothing is held under a blank identifier, and a known one keeps the block it has
  · refine ⟨fun id => ?_, by rw [h.order, visibleIds_append_of_blank hblank]⟩
    have hne : Text.isBlankText id = false → b.id ≠ id := by
      rintro hid rfl
      exact Bool.false_ne_true (hid.symm.trans hblank)
    rw [h.get? id, find?_append_block]
    cases hid : Text.isBlankText id <;> simp [hne, hid]
  · refine ⟨fun id => ?_, ?_⟩
    · rw [h.get? id, find?_append_block]
      by_cases hid : b.id = id
      · subst hid
        have hfirst : (bs.find? (·.id == b.id)).isSome := by
          simpa using (h.contains_iff hvisible).1 hcontains
        rw [Option.or_of_isSome hfirst]
      · simp [hid]
    · have hseen : (firsts (visibleIds bs)).contains b.id :=
        List.contains_iff_mem.2 (h.order ▸ h.mem_order.2 hcontains)
      rw [visibleIds_append_of_visible hvisible, firsts_append_singleton, if_pos hseen, h.order]

theorem offer_accepted (h : r.Holds bs) (hadd : r.add (.str b.id) b = .ok r') :
    r'.Holds (bs ++ [b]) := by
  obtain ⟨hvisible, hnew, -⟩ := add_eq_ok.1 hadd
  refine ⟨fun id => ?_, ?_⟩
  · rw [get?_of_ok hadd, h.get? id, find?_append_block]
    by_cases hid : b.id = id
    · subst hid
      have hnone : bs.find? (·.id == b.id) = none := by
        rw [contains_eq, Option.isSome_eq_false_iff, Option.isNone_iff_eq_none, h.get? b.id,
          if_neg (Bool.eq_false_iff.1 hvisible)] at hnew
        exact hnew
      simp [hvisible, hnone]
    · simp [hid]
  · have hunseen : ¬(firsts (visibleIds bs)).contains b.id := by
      rw [List.contains_iff_mem, ← h.order, h.mem_order, hnew]
      exact Bool.false_ne_true
    rw [visibleIds_append_of_visible hvisible, firsts_append_singleton, if_neg hunseen,
      order_of_ok hadd, h.order]

theorem offer (h : r.Holds bs) (b : Block) : (r.offer b).Holds (bs ++ [b]) := by
  cases hadd : r.add (.str b.id) b with
  | ok r' => exact offer_of_ok hadd ▸ h.offer_accepted hadd
  | error e => exact (offer_of_error hadd).symm ▸ h.offer_refused hadd

end Holds

theorem holds_offerAll (bs : List Block) : (empty.offerAll bs).Holds bs := by
  induction bs using List.reverseRecOn with
  | nil => exact ⟨fun id => by cases Text.isBlankText id <;> rfl, rfl⟩
  | append_singleton bs b ih =>
    rw [offerAll, List.foldl_append]
    exact ih.offer b

theorem offerAll_of_refused (h : (r.offerAll bs).add (.str b.id) b = .error e) (after : List Block) :
    r.offerAll (bs ++ b :: after) = r.offerAll (bs ++ after) := by
  simp only [offerAll, List.foldl_append, List.foldl_cons] at h ⊢
  rw [offer_of_error h]

end Offers

section Listing

namespace Holds

theorem find?_of_get? (h : r.Holds bs) (hb : r.get? id = some b) :
    bs.find? (·.id == id) = some b := by
  rw [h.get? id] at hb
  split at hb
  · cases hb
  · exact hb

theorem id_of_get? (h : r.Holds bs) (hb : r.get? id = some b) : b.id = id := by
  simpa using List.find?_some (h.find?_of_get? hb)

/-- A listed block is the first one of its identifier. -/
theorem find?_of_mem_list (h : r.Holds bs) (hb : b ∈ r.list) :
    bs.find? (·.id == b.id) = some b := by
  obtain ⟨id, -, hget⟩ := List.mem_filterMap.1 hb
  rw [h.id_of_get? hget]
  exact h.find?_of_get? hget

theorem ids_list (h : r.Holds bs) : r.list.map (·.id) = r.order := by
  have hself : ∀ id ∈ r.order, (r.get? id).map (·.id) = some id := by
    intro id hid
    obtain ⟨b, hb⟩ := Option.isSome_iff_exists.1 (h.mem_order.1 hid)
    rw [Registry.get?, hb, Option.map_some, h.id_of_get? hb]
  rw [list, List.map_filterMap, List.filterMap_congr hself, List.filterMap_some]

end Holds

end Listing

section Validation

open Definition

theorem blockIssues_fst (r : Registry Block) (b : Block) : (blockIssues r b).1 = r.offer b := by
  rw [blockIssues, offer]
  cases r.add (.str b.id) b with
  | ok r' => rfl
  | error e => cases e <;> rfl

/-- Validation offers the blocks of a definition to its registry. -/
theorem registerFrom_fst (r : Registry Block) (bs : List Block) :
    (registerFrom r bs).1 = r.offerAll bs := by
  induction bs generalizing r with
  | nil => rfl
  | cons b bs ih => rw [registerFrom_cons, ih, blockIssues_fst, offerAll, offerAll, List.foldl_cons]

end Validation

/-- A registry that was offered the blocks of a list and the lenient index of that list have the same
first block under every identifier that is not blank, and the registry has no other. It lists the first
block of each such identifier in order of declaration, none twice. It refuses a block exactly for a
blank identifier or for one that an earlier block has, and a block that is refused changes nothing,
then or later. The registry that validation fills is this one. -/
theorem agrees_index (bs : List Block) :
    let r := Registry.empty.offerAll bs
    (∀ id, r.contains id ↔ Table.contains (Block.index bs) id ∧ Text.isBlankText id = false)
    ∧ (∀ id, r.contains id → ∃ b, r.get? id = some b ∧ Table.get? (Block.index bs) id = some b
      ∧ bs.find? (·.id == id) = some b)
    ∧ r.list.map (·.id) = firsts ((bs.map (·.id)).filter (!Text.isBlankText ·))
    ∧ (r.list.map (·.id)).Nodup ∧ (∀ b ∈ r.list, bs.find? (·.id == b.id) = some b)
    ∧ (∀ b e, r.add (.str b.id) b = .error e ↔
      Text.isBlankText b.id ∧ e = .blankId ∧ e.kind = "ValueError"
      ∨ Text.isBlankText b.id = false ∧ (∃ b' ∈ bs, b'.id = b.id) ∧ e = .duplicate b.id
        ∧ e.kind = "DuplicateBlockIdError")
    ∧ (∀ b e, r.add (.str b.id) b = .error e → r.offer b = r
      ∧ ∀ after, Registry.empty.offerAll (bs ++ b :: after) = Registry.empty.offerAll (bs ++ after))
    ∧ (Definition.registerFrom .empty bs).1 = r := by
  intro r
  have h : r.Holds bs := holds_offerAll bs
  have hids : r.list.map (·.id) = firsts (visibleIds bs) := h.ids_list.trans h.order
  refine ⟨fun id => ?same, fun id hid => ?first, hids, hids ▸ nodup_firsts _,
    fun b hb => h.find?_of_mem_list hb, fun b e => ?refused,
    fun b e he => ⟨offer_of_error he, offerAll_of_refused he⟩, registerFrom_fst _ bs⟩
  case same =>
    rw [contains_eq, h.get? id, Table.contains, get?_index]
    cases Text.isBlankText id <;> simp
  case first =>
    obtain ⟨b, hb⟩ := Option.isSome_iff_exists.1 hid
    have hfirst := h.find?_of_get? hb
    exact ⟨b, hb, (get?_index bs id).trans hfirst, hfirst⟩
  case refused =>
    rw [add_eq_error]
    refine or_congr (and_congr_right fun _ => ?_) (and_congr_right fun hvisible => ?_)
    · exact ⟨fun he => ⟨he, he ▸ rfl⟩, And.left⟩
    · rw [h.contains_iff hvisible]
      exact and_congr_right fun _ => ⟨fun he => ⟨he, he ▸ rfl⟩, And.left⟩

/-- Two identifiers declared twice, and blank ones between them. -/
def repeatedBlocks : List Block := [Block.bare "b" "custom_build_command" "build",
  Block.bare "  " "custom_run_command" "run", Block.bare "a" "custom_test_command" "test",
  Block.bare "b" "node_test_command" "test", Block.bare "" "custom_run_command" "run",
  Block.bare "a" "custom_test_command" "test"]

theorem agrees_index_repeated :
    let r := Registry.empty.offerAll repeatedBlocks
    r.contains "b" ∧ ¬r.contains "  " ∧ Table.contains (Block.index repeatedBlocks) "  "
    ∧ (∃ b, r.get? "b" = some b ∧ Table.get? (Block.index repeatedBlocks) "b" = some b
      ∧ b.type = "custom_build_command")
    ∧ r.list.map (·.id) = ["b", "a"]
    ∧ r.add (.str "a") (Block.bare "a" "" "") = .error (.duplicate "a") := by
  intro r
  obtain ⟨hsame, hfirst, hids, -, -, hrefused, -⟩ := agrees_index repeatedBlocks
  have hb : r.contains "b" := (hsame "b").2 ⟨by decide, by decide⟩
  obtain ⟨b, hget, hindex, hfind⟩ := hfirst "b" hb
  refine ⟨hb, fun h => absurd ((hsame "  ").1 h).2 (by decide), by decide,
    ⟨b, hget, hindex, ?_⟩, hids.trans (by decide), ?_⟩
  · cases hfind
    rfl
  · have ha : Block.bare "a" "custom_test_command" "test" ∈ repeatedBlocks := by decide
    exact (hrefused (Block.bare "a" "" "") _).2 (.inr ⟨by decide, ⟨_, ha, rfl⟩, rfl, rfl⟩)

end Registry

end BuildPipeline
