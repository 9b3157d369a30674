import BuildPipeline.Proofs.Json.KeySorting
import BuildPipeline.Proofs.Json.WrittenDocuments

/-!
Which documents of any kind have a JSON text: those made of what JSON has, with mappings whose keys
can be sorted.
-/

namespace BuildPipeline

/-- Scalars that JSON has, but for whole numbers with too many digits. -/
def Scalar.Serializable : Scalar → Prop
  | .null | .bool _ | .float _ | .str _ => True
  | .int n => n.natAbs < 10 ^ Json.maxDigits
  | .bytes _ | .date _ | .moment _ => False

instance : (s : Scalar) → Decidable s.Serializable
  | .null | .bool _ | .float _ | .str _ => isTrue trivial
  | .int n => inferInstanceAs (Decidable (n.natAbs < 10 ^ Json.maxDigits))
  | .bytes _ | .date _ | .moment _ => isFalse id

/-- Keys that can be sorted: at most one, or only texts, or only numbers and truth values. -/
def Dict.Sortable (es : Dict) : Prop :=
  es.length ≤ 1 ∨ ∃ s, ∀ e ∈ es, Json.keySort? e.1 = some s

/-- Documents that have a JSON text. No moment, date, set or octets, and nothing that comes back
inside itself, is in one. -/
inductive Value.Serializable : Value → Prop
  | scalar (s : Scalar) (h : s.Serializable) : Serializable (.scalar s)
  | list (vs : List Value) (h : ∀ v ∈ vs, Serializable v) : Serializable (.list vs)
  | pair (v w : Value) (hv : Serializable v) (hw : Serializable w) : Serializable (.pair v w)
  | dict (es : Dict) (hsort : Dict.Sortable es) (hkeys : ∀ e ∈ es, e.1.Serializable)
    (h : ∀ e ∈ es, Serializable e.2) : Serializable (.dict es)

namespace Json

variable {l : Layout} {depth : Nat} {s : Scalar} {v w : Value} {vs : List Value} {es : Dict}

theorem verdict_eq_ok {ε α : Type} {r : Except ε α} : verdict r = .ok () ↔ ∃ a, r = .ok a := by
  cases r <;> simp [verdict, Except.map]

theorem verdict_both {ε α β γ : Type} {r : Except ε α} {r' : Except ε β} (f : α → β → γ) :
    verdict (r >>= fun a => r' >>= fun b => .ok (f a b)) = .ok ()
      ↔ verdict r = .ok () ∧ verdict r' = .ok () := by
  cases r <;> cases r' <;> simp [verdict, Except.map, bind, Except.bind]

section Scalars

theorem verdict_scalar : verdict (scalar s) = .ok () ↔ s.Serializable := by
  cases s with
  | int n =>
    rw [scalar, intText_eq_ite]
    split <;> simp [Scalar.Serializable, *]
  | bytes | date | moment => exact iff_of_false (fun h => by cases h) id
  | _ => exact ⟨fun _ => trivial, fun _ => rfl⟩

theorem verdict_key : verdict (key s) = .ok () ↔ s.Serializable := by
  rw [← verdict_scalar]
  cases s with
  | bytes | date | moment => exact iff_of_false (fun h => by cases h) fun h => by cases h
  | str => rfl
  | _ => exact iff_of_eq (congrArg (· = _) (verdict_bind_of _ _))

end Scalars

theorem verdict_member_iff {e : Scalar × Except WriteError (List Char)} :
    verdict (member l e) = .ok () ↔ e.1.Serializable ∧ verdict e.2 = .ok () := by
  rw [← verdict_key]
  exact verdict_both _

theorem verdict_encode_pair : verdict (encode l depth (.pair v w)) = .ok ()
    ↔ verdict (encode l (depth + 1) v) = .ok () ∧ verdict (encode l (depth + 1) w) = .ok () := by
  rw [encode]
  exact verdict_both _

/-- Keys that are all written can be sorted as they should be if sorting succeeds. -/
theorem exists_sortEntries_iff {α : Type} {es : List (Scalar × α)}
    (hkeys : ∀ e ∈ es, e.1.Serializable) : (∃ r, sortEntries es = .ok r)
      ↔ es.length ≤ 1 ∨ ∃ s, ∀ e ∈ es, keySort? e.1 = some s := by
  refine ⟨fun ⟨r, hr⟩ => ?_, exists_sortEntries⟩
  rcases keySort?_of_sortEntries hr with hfew | ⟨s, hs⟩
  · exact .inl hfew
  cases es with
  | nil => exact .inl (Nat.zero_le 1)
  | cons e es =>
    obtain ⟨he, hnull⟩ := hs e List.mem_cons_self
    have hwritten := hkeys e List.mem_cons_self
    have hsome : ∃ s', s = some s' := by
      rw [← he]
      cases hk : e.1 with
      | null => exact absurd hk hnull
      | bytes | date | moment => rw [hk] at hwritten; exact hwritten.elim
      | _ => exact ⟨_, rfl⟩
    obtain ⟨s', rfl⟩ := hsome
    exact .inr ⟨s', fun e he => (hs e he).1⟩

theorem forall_encodeEntries {P : Scalar → Except WriteError (List Char) → Prop} :
    (∀ e ∈ encodeEntries l depth es, P e.1 e.2) ↔ ∀ e ∈ es, P e.1 (encode l depth e.2) := by
  rw [encodeEntries_eq, List.forall_mem_map]

theorem exists_sortEntries_encodeEntries (l : Layout) (depth : Nat)
    (hkeys : ∀ e ∈ es, e.1.Serializable) :
    (∃ r, sortEntries (encodeEntries l depth es) = .ok r) ↔ es.Sortable := by
  have hwritten : ∀ e ∈ encodeEntries l depth es, e.1.Serializable :=
    forall_encodeEntries (P := fun k _ => k.Serializable).2 hkeys
  have hlength : (encodeEntries l depth es).length = es.length := by
    rw [encodeEntries_eq, List.length_map]
  rw [exists_sortEntries_iff hwritten, hlength]
  exact or_congr_right (exists_congr fun s =>
    forall_encodeEntries (P := fun k _ => keySort? k = some s))

theorem verdict_encode_sortEntries {r : List (Scalar × Except WriteError (List Char))}
    (h : sortEntries (encodeEntries l (depth + 1) es) = .ok r) :
    verdict (encode l depth (.dict es)) = forM r fun e => verdict (member l e) := by
  rw [encode, h, mapError_ok, ok_bind, ← verdict_mapM]
  exact verdict_bind_of _ _

/-- A mapping has a text if its keys can be sorted and all that is in it has one. -/
theorem verdict_encode_dict : verdict (encode l depth (.dict es)) = .ok ()
    ↔ es.Sortable ∧ ∀ e ∈ es, e.1.Serializable ∧ verdict (encode l (depth + 1) e.2) = .ok () := by
  have hmembers : (∀ e ∈ encodeEntries l (depth + 1) es, verdict (member l e) = .ok ())
      ↔ ∀ e ∈ es, e.1.Serializable ∧ verdict (encode l (depth + 1) e.2) = .ok () := by
    simp only [verdict_member_iff]
    exact forall_encodeEntries (P := fun k t => k.Serializable ∧ verdict t = .ok ())
  rw [← hmembers]
  constructor
  · intro h
    cases hr : sortEntries (encodeEntries l (depth + 1) es) with
    | error e =>
      rw [encode, hr] at h
      cases h
    | ok r =>
      rw [verdict_encode_sortEntries hr, forM_eq_ok] at h
      have hall : ∀ e ∈ encodeEntries l (depth + 1) es, verdict (member l e) = .ok () :=
        fun e he => h e ((perm_sortEntries hr).mem_iff.2 he)
      have hkeys := fun e he => (hmembers.1 hall e he).1
      exact ⟨(exists_sortEntries_encodeEntries l (depth + 1) hkeys).1 ⟨r, hr⟩, hall⟩
  · rintro ⟨hsort, hall⟩
    have hkeys := fun e he => (hmembers.1 hall e he).1
    obtain ⟨r, hr⟩ := (exists_sortEntries_encodeEntries l (depth + 1) hkeys).2 hsort
    rw [verdict_encode_sortEntries hr, forM_eq_ok]
    exact fun e he => hall e ((perm_sortEntries hr).mem_iff.1 he)

theorem serializable_of_encode : ∀ (v : Value) {depth : Nat},
    verdict (encode l depth v) = .ok () → v.Serializable
  | .scalar s, _, h => .scalar s (verdict_scalar.1 h)
  | .list vs, depth, h => by
    rw [verdict_encode_list, forM_eq_ok] at h
    exact .list vs fun v hv => serializable_of_encode v (h v hv)
  | .pair v w, _, h =>
    have hboth := verdict_encode_pair.1 h
    .pair v w (serializable_of_encode v hboth.1) (serializable_of_encode w hboth.2)
  | .dict es, depth, h => by
    obtain ⟨hsort, hentries⟩ := verdict_encode_dict.1 h
    refine .dict es hsort (fun e he => (hentries e he).1) fun e he => ?_
    have hsize : sizeOf e.2 < 1 + sizeOf es := by
      have hlt := List.sizeOf_lt_of_mem he
      obtain ⟨k, v⟩ := e
      simp only [Prod.mk.sizeOf_spec] at hlt ⊢
      omega
    exact serializable_of_encode e.2 (hentries e he).2
  | .set _, _, h => nomatch h
  | .loop _, _, h => nomatch h
termination_by v => sizeOf v

/-- A document has a text at any depth exactly if it is serializable. -/
theorem verdict_encode_iff (l : Layout) (depth : Nat) (v : Value) :
    verdict (encode l depth v) = .ok () ↔ v.Serializable := by
  refine ⟨serializable_of_encode v, fun h => ?_⟩
  induction h generalizing depth with
  | scalar s h => exact verdict_scalar.2 h
  | list vs h ih =>
    rw [verdict_encode_list]
    exact forM_eq_ok.2 fun v hv => ih v hv (depth + 1)
  | pair v w hv hw ihv ihw => exact verdict_encode_pair.2 ⟨ihv (depth + 1), ihw (depth + 1)⟩
  | dict es hsort hkeys h ih =>
    exact verdict_encode_dict.2 ⟨hsort, fun e he => ⟨hkeys e he, ih e he (depth + 1)⟩⟩

theorem exists_canonical_iff :
    (∃ text, canonical es = .ok text) ↔ (Value.dict es).Serializable := by
  rw [← verdict_encode_iff .compact 0, verdict_eq_ok]
  rw [canonical, write]
  cases encode .compact 0 (.dict es) <;> simp [Except.map]

end Json

end BuildPipeline
