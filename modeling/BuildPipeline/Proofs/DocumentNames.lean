import BuildPipeline.Proofs.StoreUpdates

/-!
The names that a store in files goes by. Safe names are taken, and so are names of the same characters
that end in a line feed. Two names that are taken lead to a file of their own, two steps below the
folder of the store. Any others are refused before a file is looked at.
-/

namespace BuildPipeline

open Files DirectoryStore

variable {name c k c' k' : String} {s : DirectoryStore}

/-- Characters of safe names with a line feed behind them. -/
def LineName (name : String) : Prop :=
  ∃ stem : String, stem ≠ "" ∧ (∀ a ∈ stem.toList, isNameChar a) ∧ name = stem ++ "\n"

/-- A name that a store in files takes. -/
def TakenName (name : String) : Prop := SafeName name ∨ LineName name

section Names

theorem isNameChar_iff {a : Char} : isNameChar a ↔ a.isAlphanum ∨ a ∈ ['.', '_', '-'] := by
  simp only [isNameChar, Char.isAlphanum, Char.isAlpha, Char.isUpper, Char.isLower, Char.isDigit,
    Char.le_def, Bool.or_eq_true, Bool.and_eq_true, decide_eq_true_eq, beq_iff_eq, List.mem_cons,
    List.not_mem_nil, or_false]
  tauto

theorem isSafe_iff_chars : isSafe name ↔ withoutLastLineFeed name.toList ≠ []
    ∧ (∀ a ∈ withoutLastLineFeed name.toList, isNameChar a) ∧ name ≠ "." ∧ name ≠ ".." := by
  simp only [isSafe, Bool.and_eq_true, Bool.not_eq_true', List.isEmpty_eq_false_iff,
    List.all_eq_true, bne_iff_ne, and_assoc]

theorem getLast?_lineName (stem : String) : (stem ++ "\n").toList.getLast? = some '\n' := by simp

theorem LineName.isSafe (h : LineName name) : isSafe name := by
  obtain ⟨stem, hnonempty, hchars, rfl⟩ := h
  have hlast := getLast?_lineName stem
  have hne (other : String) (hother : other.toList.getLast? ≠ some '\n') : stem ++ "\n" ≠ other :=
    fun heq => hother (heq ▸ hlast)
  rw [isSafe_iff_chars, withoutLastLineFeed, if_pos hlast]
  exact ⟨by simpa using hnonempty, by simpa using hchars, hne "." (by decide), hne ".." (by decide)⟩

/-- One line feed may end a name. -/
theorem isSafe_iff : isSafe name ↔ TakenName name := by
  refine ⟨fun h => ?_, fun h => h.elim SafeName.isSafe LineName.isSafe⟩
  rw [isSafe_iff_chars, withoutLastLineFeed] at h
  split_ifs at h with hlast
  · refine .inr ⟨String.ofList name.toList.dropLast, by simpa using h.1, by simpa using h.2.1, ?_⟩
    rw [← String.toList_inj]
    simpa using (List.dropLast_append_getLast? '\n' hlast).symm
  · obtain ⟨hnonempty, hchars, hhere, habove⟩ := h
    exact .inl ⟨by simpa using hnonempty, hchars, hhere, habove⟩

theorem LineName.not_safeName (h : LineName name) : ¬SafeName name := by
  obtain ⟨stem, -, -, rfl⟩ := h
  exact fun hsafe => absurd (hsafe.chars '\n' (by simp)) (by decide)

end Names

section Refusals

/-- Two names are refused with one of them that is not taken. -/
theorem place_refused (h : ¬(TakenName c ∧ TakenName k)) (s : DirectoryStore) :
    ∃ name, (name = c ∨ name = k) ∧ ¬TakenName name
      ∧ s.place c k = .error (.invalidName name) := by
  simp only [← isSafe_iff] at h ⊢
  by_cases hc : isSafe c
  · refine ⟨k, .inr rfl, fun hk => h ⟨hc, hk⟩, ?_⟩
    rw [place, checkName, checkName, if_pos hc, if_neg fun hk => h ⟨hc, hk⟩]
    rfl
  · refine ⟨c, .inl rfl, hc, ?_⟩
    rw [place, checkName, if_neg hc]
    rfl

theorem get_of_place {e : StoreError} (h : s.place c k = .error e) : s.get c k = .error e := by
  rw [DirectoryStore.get, h]
  rfl

theorem put_of_place {e : StoreError} (h : s.place c k = .error e) (v : Value) :
    s.put c k v = .error e := by
  rw [DirectoryStore.put, h]
  rfl

theorem get_ne_invalidName (hc : TakenName c) (hk : TakenName k) (s : DirectoryStore)
    (name : String) : s.get c k ≠ .error (.invalidName name) := by
  rw [get_of_isSafe s (isSafe_iff.2 hc) (isSafe_iff.2 hk)]
  cases s.tree.file? (s.root ++ [c, fileName k]) with
  | none =>
    intro h
    cases h
  | some text =>
    dsimp only
    rw [load]
    cases Json.read (String.ofList (Text.lineFeeds text.toList)) with
    | ok v =>
      intro h
      cases h
    | error e =>
      intro h
      cases h

theorem put_ne_invalidName (hc : TakenName c) (hk : TakenName k) (s : DirectoryStore) (v : Value)
    (name : String) : s.put c k v ≠ .error (.invalidName name) := by
  rw [put_of_isSafe s (isSafe_iff.2 hc) (isSafe_iff.2 hk)]
  cases Json.write .indented v <;> exact nofun

/-- A store finds fault with two names unless both are safe, whether a document is looked up or put
under them. -/
structure DirectoryStore.Guards (s : DirectoryStore) (c k : String) : Prop where
  get : (∃ name, s.get c k = .error (.invalidName name)) ↔ ¬(SafeName c ∧ SafeName k)
  put : ∀ v, (∃ name, s.put c k v = .error (.invalidName name)) ↔ ¬(SafeName c ∧ SafeName k)

theorem guards_iff : s.Guards c k
    ↔ ¬((TakenName c ∧ TakenName k) ∧ (LineName c ∨ LineName k)) := by
  constructor
  · rintro h ⟨⟨hc, hk⟩, hline⟩
    have hunsafe : ¬(SafeName c ∧ SafeName k) := fun hsafe =>
      hline.elim (·.not_safeName hsafe.1) (·.not_safeName hsafe.2)
    obtain ⟨name, hname⟩ := h.get.2 hunsafe
    exact get_ne_invalidName hc hk s name hname
  · intro h
    by_cases htaken : TakenName c ∧ TakenName k
    · have hsafe : SafeName c ∧ SafeName k :=
        ⟨htaken.1.resolve_right fun hc => h ⟨htaken, .inl hc⟩,
          htaken.2.resolve_right fun hk => h ⟨htaken, .inr hk⟩⟩
      exact ⟨iff_of_false (fun ⟨name, hname⟩ => get_ne_invalidName htaken.1 htaken.2 s name hname)
          (not_not_intro hsafe),
        fun v => iff_of_false
          (fun ⟨name, hname⟩ => put_ne_invalidName htaken.1 htaken.2 s v name hname)
          (not_not_intro hsafe)⟩
    · obtain ⟨name, -, -, hplace⟩ := place_refused htaken s
      have hunsafe : ¬(SafeName c ∧ SafeName k) := fun hsafe =>
        htaken ⟨.inl hsafe.1, .inl hsafe.2⟩
      exact ⟨iff_of_true ⟨name, get_of_place hplace⟩ hunsafe,
        fun v => iff_of_true ⟨name, put_of_place hplace v⟩ hunsafe⟩

end Refusals

section Files

/-- The file of a key is one step that leads down. -/
theorem step_fileName (h : isSafe k) :
    Path.ofText (fileName k) = ⟨"", [fileName k]⟩ ∧ fileName k ≠ ".." := by
  have hslash : '/' ∉ (fileName k).toList := by simp [fileName, (step_of_isSafe h).1]
  have hne (other : String) (hother : other.toList.getLast? ≠ some 'n') : fileName k ≠ other :=
    fun heq => hother (heq ▸ by simp [fileName])
  exact ⟨path_of_step hslash (hne "" (by decide)) (hne "." (by decide)), hne ".." (by decide)⟩

/-- Two names lead to a file two steps below the folder of the store. It alone is read when a document
is looked up under them and written when one is put, and no other two names lead there. -/
structure DirectoryStore.Leads (s : DirectoryStore) (c k : String) : Prop where
  place : s.place c k = .ok (s.root ++ [c, fileName k])
  path : (⟨"", s.root⟩ : Path) ++ Path.ofText c ++ Path.ofText (fileName k)
    = ⟨"", s.root ++ [c, fileName k]⟩
  down : ".." ∉ [c, fileName k]
  get : ∀ t : Files.Tree String,
    t.file? (s.root ++ [c, fileName k]) = s.tree.file? (s.root ++ [c, fileName k]) →
      DirectoryStore.get ⟨s.root, t⟩ c k = s.get c k
  put : ∀ v text, Json.write .indented v = .ok text → ∃ s', s.put c k v = .ok s'
    ∧ s'.root = s.root ∧ ∀ p, s'.tree.file? p
      = if s.root ++ [c, fileName k] = p then some text else s.tree.file? p
  own : ∀ c' k', s.place c' k' = s.place c k → c' = c ∧ k' = k

theorem leads_of_taken (hc : TakenName c) (hk : TakenName k) (s : DirectoryStore) :
    s.Leads c k := by
  have hc := isSafe_iff.2 hc
  have hk := isSafe_iff.2 hk
  obtain ⟨hfile, hfileUp⟩ := step_fileName hk
  refine ⟨place_of_isSafe s hc hk, ?_, ?_, fun t ht => ?_, fun v text htext => ?_,
    fun c' k' hplace => ?_⟩
  · rw [path_of_isSafe hc, hfile]
    exact congrArg (Files.Path.mk "") (List.append_assoc ..)
  · simpa using ⟨(step_of_isSafe hc).2.2.2.symm, hfileUp.symm⟩
  · rw [get_of_isSafe _ hc hk, get_of_isSafe _ hc hk, ht]
  · rw [put_of_isSafe s hc hk, htext]
    exact ⟨_, rfl, rfl, fun p => Tree.file?_write _ _ _ _⟩
  · rw [place_of_isSafe s hc hk] at hplace
    obtain ⟨-, hplace⟩ := place_eq_ok.1 hplace
    have hnames : c' = c ∧ fileName k' = fileName k := by simpa using hplace
    exact ⟨hnames.1, fileName_injective hnames.2⟩

end Files

section Guard

/-- A write under names that are refused is counted and leaves the documents alone. -/
theorem Store.put_of_error {st : Store} {e : StoreError} {v : Value}
    (h : st.backing.put c k v = .error e) :
    ∃ e', (Store.put c k v).run st = .error e' { st with puts := st.puts + 1 }
      ∧ (st.refuses (st.puts + 1) = false → e' = e) := by
  by_cases hrefused : st.refuses (st.puts + 1)
  · refine ⟨.unavailable c k, ?_, fun htakes => ?_⟩
    · simp [Store.put, hrefused, EStateM.run_bind]
    · cases hrefused.symm.trans htakes
  · refine ⟨e, ?_, fun _ => rfl⟩
    have hthrow (t : Store) : (throw e : EStateM StoreError Store Backing).run t = .error e t := rfl
    simp [Store.put, hrefused, h, liftExcept, EStateM.run_bind, hthrow]

/-- A store in files finds fault with all names but safe ones, unless it takes both and one of them
ends in a line feed. Names that it does not take are refused by an error about one of them, and
nothing is written. Names that it takes lead to a file of their own, two steps below its
folder. -/
theorem DirectoryStore.names_guarded_iff (s : DirectoryStore) (c k : String) :
    (∀ name, SafeName name ↔ name ≠ "" ∧ (∀ a ∈ name.toList, a.isAlphanum ∨ a ∈ ['.', '_', '-'])
      ∧ name ≠ "." ∧ name ≠ "..")
    ∧ (s.Guards c k ↔ ¬((TakenName c ∧ TakenName k) ∧ (LineName c ∨ LineName k)))
    ∧ (¬(TakenName c ∧ TakenName k) → ∃ name, (name = c ∨ name = k) ∧ ¬TakenName name
      ∧ (StoreError.invalidName name).kind = "ValueError"
      ∧ s.get c k = .error (.invalidName name)
      ∧ ∀ v, s.put c k v = .error (.invalidName name)
        ∧ ∀ st : Store, st.backing = .directory s →
          ∃ e, (Store.put c k v).run st = .error e { st with puts := st.puts + 1 }
            ∧ (st.refuses (st.puts + 1) = false → e = .invalidName name))
    ∧ (TakenName c ∧ TakenName k → s.Leads c k) := by
  refine ⟨fun name => ?_, guards_iff, fun huntaken => ?_, fun htaken =>
    leads_of_taken htaken.1 htaken.2 s⟩
  · simp only [safeName_iff, List.all_eq_true, isNameChar_iff]
  · obtain ⟨name, hname, hbad, hplace⟩ := place_refused huntaken s
    refine ⟨name, hname, hbad, rfl, get_of_place hplace, fun v => ?_⟩
    have hput := put_of_place hplace v
    refine ⟨hput, fun st hst => Store.put_of_error ?_⟩
    rw [hst, Backing.put, hput]
    rfl

theorem lineName_key : LineName "a\n" :=
  ⟨"a", by decide, List.all_eq_true.1 (by decide), rfl⟩

/-- A key that ends in a line feed is taken, and leads to a file of its own. -/
theorem DirectoryStore.names_guarded_iff_line :
    let s := DirectoryStore.empty ["store"]
    (TakenName "logs" ∧ TakenName "a\n") ∧ ¬s.Guards "logs" "a\n" ∧ s.Leads "logs" "a\n"
      ∧ s.place "logs" "a" ≠ s.place "logs" "a\n" := by
  intro s
  have htaken : TakenName "logs" ∧ TakenName "a\n" := ⟨.inl (by decide), .inr lineName_key⟩
  obtain ⟨-, hguards, -, hleads⟩ := names_guarded_iff s "logs" "a\n"
  refine ⟨htaken, fun h => hguards.1 h ⟨htaken, .inr lineName_key⟩, hleads htaken, fun hplace => ?_⟩
  exact absurd ((hleads htaken).own "logs" "a" hplace).2 (by decide)

/-- The name with the line feed is not safe, and a document is put and found under it. -/
theorem DirectoryStore.names_not_guarded :
    ¬SafeName "a\n" ∧ ¬(DirectoryStore.empty ["store"]).Guards "logs" "a\n"
      ∧ ∃ s, (DirectoryStore.empty ["store"]).put "logs" "a\n" (.bool true) = .ok s
        ∧ s.get "logs" "a\n" = .ok (some (.bool true)) := by
  have htaken : TakenName "logs" ∧ TakenName "a\n" := ⟨.inl (by decide), .inr lineName_key⟩
  refine ⟨lineName_key.not_safeName, fun h => guards_iff.1 h ⟨htaken, .inr lineName_key⟩, ?_⟩
  obtain ⟨s, hput⟩ : ∃ s, (DirectoryStore.empty ["store"]).put "logs" "a\n" (.bool true) = .ok s :=
    ⟨_, rfl⟩
  exact ⟨s, hput, DirectoryStore.get_put_self hput (.scalar _ trivial)⟩

end Guard

end BuildPipeline
