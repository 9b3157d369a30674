import BuildPipeline.Proofs.FileTrees
import BuildPipeline.Proofs.Json.ReadBack
import BuildPipeline.Proofs.Json.WrittenDocuments
import BuildPipeline.Store.Basic

/-! Laws of stores in files: where a document with safe names is kept, and what its file is read
as. -/

namespace BuildPipeline

open Files DirectoryStore

variable {c k name text : String} {v : Value}

/-- A name of letters, digits, dots, underscores and hyphens that leads to no other folder. -/
structure SafeName (name : String) : Prop where
  nonempty : name ≠ ""
  chars : ∀ c ∈ name.toList, DirectoryStore.isNameChar c
  here : name ≠ "."
  above : name ≠ ".."

theorem safeName_iff : SafeName name
    ↔ name ≠ "" ∧ name.toList.all isNameChar ∧ name ≠ "." ∧ name ≠ ".." := by
  rw [List.all_eq_true]
  exact ⟨fun h => ⟨h.nonempty, h.chars, h.here, h.above⟩,
    fun ⟨hnonempty, hchars, hhere, habove⟩ => ⟨hnonempty, hchars, hhere, habove⟩⟩

instance (name : String) : Decidable (SafeName name) := decidable_of_iff _ safeName_iff.symm

section Names

variable {cs : List Char}

theorem SafeName.isSafe (h : SafeName name) : isSafe name := by
  have hlast : withoutLastLineFeed name.toList = name.toList := by
    refine if_neg fun hlast => ?_
    exact absurd (h.chars _ (List.mem_of_getLast? hlast)) (by decide)
  have hnonempty : name.toList ≠ [] := fun hnil => h.nonempty (String.toList_eq_nil_iff.1 hnil)
  simpa [DirectoryStore.isSafe, hlast, hnonempty, h.here, h.above] using h.chars

theorem place_of_isSafe (s : DirectoryStore) (hc : isSafe c) (hk : isSafe k) :
    s.place c k = .ok (s.root ++ [c, fileName k]) := by
  rw [place, checkName, checkName, if_pos hc, if_pos hk]
  rfl

/-- Two names lead to a place if they are safe. -/
theorem place_eq_ok {s : DirectoryStore} {p : Place} :
    s.place c k = .ok p ↔ (isSafe c ∧ isSafe k) ∧ s.root ++ [c, fileName k] = p := by
  by_cases hsafe : isSafe c ∧ isSafe k
  · simp [place_of_isSafe s hsafe.1 hsafe.2, hsafe]
  · refine iff_of_false (fun h => hsafe ?_) fun h => hsafe h.1
    rw [place, checkName, checkName] at h
    split_ifs at h with hc hk
    · exact ⟨hc, hk⟩
    all_goals cases h

theorem get_of_isSafe (s : DirectoryStore) (hc : isSafe c) (hk : isSafe k) :
    s.get c k = match s.tree.file? (s.root ++ [c, fileName k]) with
      | none => .ok none
      | some text => (load text).map Value.present? := by
  rw [DirectoryStore.get, place_of_isSafe s hc hk]
  change (match s.tree.file? (s.root ++ [c, fileName k]) with
    | none => _
    | some text => _) = _
  cases s.tree.file? (s.root ++ [c, fileName k]) with
  | none => rfl
  | some text =>
    dsimp only
    cases load text <;> rfl

theorem put_of_isSafe (s : DirectoryStore) (hc : isSafe c) (hk : isSafe k) (v : Value) :
    s.put c k v = ((Json.write .indented v).mapError .writing).map fun text =>
      { s with tree := s.tree.write (s.root ++ [c, fileName k]) text } := by
  rw [DirectoryStore.put, place_of_isSafe s hc hk]
  rfl

/-- A document is taken under two safe names if it has a text. -/
theorem DirectoryStore.put_eq_ok {s s' : DirectoryStore} : s.put c k v = .ok s'
    ↔ (isSafe c ∧ isSafe k) ∧ ∃ text, Json.write .indented v = .ok text
      ∧ { s with tree := s.tree.write (s.root ++ [c, fileName k]) text } = s' := by
  by_cases hsafe : isSafe c ∧ isSafe k
  · rw [put_of_isSafe s hsafe.1 hsafe.2]
    cases Json.write .indented v <;> simp [hsafe, Except.map]
  · refine iff_of_false (fun h => hsafe ?_) fun h => hsafe h.1
    obtain ⟨p, hplace, -⟩ := bind_eq_ok.1 h
    exact (place_eq_ok.1 hplace).1

theorem segments_of_not_mem (h : '/' ∉ cs) : segments cs = [cs] := by
  induction cs with
  | nil => rfl
  | cons c cs ih =>
    obtain ⟨hc, hcs⟩ := not_or.1 (mt List.mem_cons.2 h)
    rw [segments, ih hcs]
    exact fun heq => hc heq.symm

theorem mem_withoutLastLineFeed {a : Char} (h : a ∈ cs) (ha : a ≠ '\n') :
    a ∈ withoutLastLineFeed cs := by
  rw [withoutLastLineFeed]
  split
  · rename_i hlast
    rw [← List.dropLast_append_getLast? '\n' hlast, List.mem_append, List.mem_singleton] at h
    exact h.resolve_right ha
  · exact h

/-- A safe name is one step that leads into its folder. -/
theorem step_of_isSafe (h : isSafe name) :
    '/' ∉ name.toList ∧ name ≠ "" ∧ name ≠ "." ∧ name ≠ ".." := by
  simp only [DirectoryStore.isSafe, Bool.and_eq_true, bne_iff_ne, ne_eq, List.all_eq_true,
    Bool.not_eq_true', List.isEmpty_eq_false_iff] at h
  obtain ⟨⟨⟨hnonempty, hchars⟩, hhere⟩, habove⟩ := h
  refine ⟨fun hslash => ?_, ?_, hhere, habove⟩
  · exact absurd (hchars _ (mem_withoutLastLineFeed hslash (by decide))) (by decide)
  · rintro rfl
    exact hnonempty rfl

theorem path_of_step (hslash : '/' ∉ name.toList) (hnonempty : name ≠ "") (hhere : name ≠ ".") :
    Path.ofText name = ⟨"", [name]⟩ := by
  have hroot : rootOf name.toList = "" := by
    rw [rootOf.eq_def]
    split
    all_goals first
      | rfl
      | exact absurd (by simp [*]) hslash
  rw [Path.ofText, hroot, segments_of_not_mem hslash]
  simp [isStep, hnonempty, hhere]

theorem path_of_isSafe (h : isSafe name) : Path.ofText name = ⟨"", [name]⟩ := by
  obtain ⟨hslash, hnonempty, hhere, -⟩ := step_of_isSafe h
  exact path_of_step hslash hnonempty hhere

theorem SafeName.path (h : SafeName name) : Path.ofText name = ⟨"", [name]⟩ :=
  path_of_isSafe h.isSafe

theorem fileName_injective : Function.Injective fileName := fun _ _ h =>
  (String.append_left_inj _).1 h

end Names

section Loading

theorem lineFeeds_of_not_mem {cs : List Char} (h : '\r' ∉ cs) : Text.lineFeeds cs = cs := by
  induction cs with
  | nil => rfl
  | cons c cs ih =>
    obtain ⟨hc, hcs⟩ := not_or.1 (mt List.mem_cons.2 h)
    rw [Text.lineFeeds, ih hcs]
    · exact fun _ heq _ => hc heq.symm
    · exact fun heq => hc heq.symm

/-- A file is read as the document it was written from, with its keys sorted. -/
theorem load_write (hv : v.IsJson) (htext : Json.write .indented v = .ok text) :
    load text = .ok v.sorted := by
  have hfeeds := lineFeeds_of_not_mem (Json.not_mem_encode hv (Json.write_eq_ok.1 htext))
  rw [load, hfeeds, String.ofList_toList, Json.read_write hv htext]
  rfl

/-- A document that was taken comes back with its keys sorted. -/
theorem DirectoryStore.get_put_self {s s' : DirectoryStore} (h : s.put c k v = .ok s')
    (hv : v.IsJson) : s'.get c k = .ok v.sorted.present? := by
  obtain ⟨⟨hc, hk⟩, text, htext, rfl⟩ := put_eq_ok.1 h
  rw [get_of_isSafe _ hc hk, Tree.file?_write, if_pos rfl]
  dsimp only
  rw [load_write hv htext]
  rfl

theorem rel_present?_sorted (hv : v.IsJson) :
    Option.Rel Value.Reordered v.sorted.present? v.present? := by
  have hreordered := hv.reordered_sorted
  cases v with
  | scalar s =>
    cases s with
    | null => exact .none
    | _ => exact .some hreordered
  | _ => exact .some hreordered

end Loading

end BuildPipeline
