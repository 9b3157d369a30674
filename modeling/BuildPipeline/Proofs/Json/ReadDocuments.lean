import BuildPipeline.Proofs.Json.Serializable

/-!
What JSON texts hold. Whatever is read from one is a document that JSON has, with no number that is
too long to be written.
-/

namespace BuildPipeline

open BuildPipeline.Text
open Yaml (IsText)

/-- Documents that JSON has, with no whole number of too many digits. -/
structure Value.Storable (v : Value) : Prop where
  json : v.IsJson
  short : v.Short

namespace Value

variable {s : Scalar} {v : Value} {vs : List Value} {t : Table String Value} {es : Dict}

theorem storable_scalar (h : s.Serializable) : Storable (.scalar s) := by
  cases s with
  | int n => exact ⟨.scalar _ trivial, List.forall_mem_singleton.2 h⟩
  | bytes | date | moment => exact h.elim
  | _ => exact ⟨.scalar _ trivial, by simp [Short, wholes]⟩

theorem storable_list (h : ∀ v ∈ vs, v.Storable) : Storable (.list vs) :=
  ⟨.list vs fun v hv => (h v hv).json, short_list.2 fun v hv => (h v hv).short⟩

theorem storable_ofTable (ht : t.Distinct) (h : ∀ e ∈ t, e.2.Storable) : Storable (.ofTable t) :=
  ⟨.table t ht fun e he => (h e he).json, short_ofTable.2 fun e he => (h e he).short⟩

theorem storable_dict (hd : Table.Distinct es) (hkeys : ∀ e ∈ es, IsText e.1)
    (hvs : ∀ e ∈ es, e.2.Storable) : (Value.dict es).Storable := by
  obtain ⟨t, rfl, ht⟩ := exists_table hd hkeys
  exact storable_ofTable ht fun e he => hvs _ (List.mem_map_of_mem he)

theorem Storable.of_dict (h : (Value.dict es).Storable) :
    Table.Distinct es ∧ ∀ e ∈ es, IsText e.1 ∧ e.2.Storable := by
  obtain ⟨hjson, hshort⟩ := h
  generalize hv : Value.dict es = v at hjson hshort
  cases hjson with
  | table t ht hvs =>
    obtain rfl := Value.dict.inj hv
    refine ⟨distinct_of ht, fun e he => ?_⟩
    obtain ⟨f, hf, rfl⟩ := List.mem_map.1 he
    exact ⟨trivial, hvs f hf, short_ofTable.1 hshort f hf⟩
  | _ => cases hv

theorem Storable.get? {k : Scalar} (h : (Value.dict es).Storable)
    (hv : Table.get? es k = some v) : v.Storable := by
  obtain ⟨e, he, rfl⟩ := Table.mem_of_get? hv
  exact (h.of_dict.2 e he).2

theorem Storable.serializable (h : v.Storable) : v.Serializable := by
  rw [← Json.verdict_encode_iff .compact 0, Json.verdict_encode .compact 0 h.json, if_pos h.short]

end Value

namespace Json

variable {cs ds r : List Char} {s : Scalar} {v : Value} {fuel : Nat}

section Numbers

theorem ofDigitChars_lt (hds : ∀ c ∈ ds, isDigit c) (n : Nat) :
    Nat.ofDigitChars 10 ds n < 10 ^ ds.length * (n + 1) := by
  induction ds generalizing n with
  | nil => simp
  | cons c ds ih =>
    obtain ⟨hc, hds⟩ := List.forall_mem_cons.1 hds
    have hdigit : c.toNat - '0'.toNat < 10 := (Yaml.digit?_decimal c (Yaml.mem_decimalGlyphs hc)).2
    calc Nat.ofDigitChars 10 (c :: ds) n
        = Nat.ofDigitChars 10 ds (10 * n + (c.toNat - '0'.toNat)) := Nat.ofDigitChars_cons
      _ < 10 ^ ds.length * (10 * n + (c.toNat - '0'.toNat) + 1) := ih hds _
      _ ≤ 10 ^ ds.length * (10 * (n + 1)) := Nat.mul_le_mul_left _ (by omega)
      _ = 10 ^ (c :: ds).length * (n + 1) := by rw [List.length_cons, Nat.pow_succ, Nat.mul_assoc]

theorem decimalValue_lt (hds : ∀ c ∈ ds, isDigit c) : decimalValue ds < 10 ^ ds.length := by
  have h := ofDigitChars_lt hds 0
  rwa [Nat.mul_one] at h

theorem natAbs_signed (negative : Bool) (n : Nat) : (Number.signed negative n).natAbs = n := by
  cases negative <;> simp [Number.signed]

/-- A number of which the sign and the digits in front of the point are known. -/
def numberFrom (left : Nat) (negative : Bool) (ws r : List Char) :
    Except Trouble (Scalar × List Char) :=
  if ws.isEmpty then .error (.syntaxAt .value left)
  else
    let (fs, r) := fractionDigits r
    match exponentPart r with
    | some (e, r) =>
      .ok (.float (Number.ofDecimal negative (decimalValue (ws ++ fs)) (e - fs.length)), r)
    | none =>
      if fs.isEmpty then
        if maxDigits < ws.length then .error (.tooLong ws.length)
        else .ok (.int (Number.signed negative (decimalValue ws)), r)
      else .ok (.float (Number.ofDecimal negative (decimalValue (ws ++ fs)) (-fs.length)), r)

theorem exists_numberFrom (cs : List Char) : ∃ negative ws r, (∀ c ∈ ws, isDigit c)
    ∧ number cs = numberFrom cs.length negative ws r := by
  have hzero : ∀ c ∈ ['0'], isDigit c = true := List.forall_mem_singleton.2 rfl
  unfold number
  dsimp only
  split
  · exact ⟨_, _, _, hzero, rfl⟩
  · exact ⟨_, _, _, fun c hc => List.mem_takeWhile_imp hc, rfl⟩

theorem serializable_of_number (h : number cs = .ok (s, r)) : s.Serializable := by
  obtain ⟨negative, ws, rest, hws, hnumber⟩ := exists_numberFrom cs
  rw [hnumber, numberFrom] at h
  dsimp only at h
  split at h
  · cases h
  split at h
  · cases h
    trivial
  split at h
  · split at h
    · cases h
    · rename_i hlength
      cases h
      rw [Scalar.Serializable, natAbs_signed]
      exact (decimalValue_lt hws).trans_le
        (Nat.pow_le_pow_right (by decide) (Nat.not_lt.1 hlength))
  · cases h
    trivial

theorem serializable_of_word (h : word? cs = some (s, r)) : s.Serializable := by
  obtain ⟨w, hw, h⟩ := List.exists_of_findSome?_eq_some h
  have hwords : ∀ w ∈ words, w.2.Serializable := by
    simp [words, Scalar.Serializable]
  split at h
  · cases h
    exact hwords w hw
  · cases h

end Numbers

section Documents

/-- A table with an entry more. -/
theorem storable_insert {t : Table String Value} (ht : t.Distinct) (hvs : ∀ e ∈ t, e.2.Storable)
    (name : String) (hv : v.Storable) : ∃ u : Table String Value,
      Table.insert (Dict.of t) (.str name) v = Dict.of u ∧ u.Distinct ∧ ∀ e ∈ u, e.2.Storable := by
  refine ⟨Table.insert t name v, Dict.set_of t name v, ht.insert name v, fun e he => ?_⟩
  rcases Table.mem_insert he with he | rfl
  · exact hvs e he
  · exact hv

/-- All that is read within some fuel is storable: values, elements, and members together with the
storable ones that they are added to. -/
structure Sound (fuel : Nat) : Prop where
  value : ∀ cs v r, value fuel cs = .ok (v, r) → v.Storable
  elements : ∀ cs vs r, elements fuel cs = .ok (vs, r) → ∀ v ∈ vs, v.Storable
  members : ∀ (t : Table String Value) cs es r, t.Distinct → (∀ e ∈ t, e.2.Storable) →
    members fuel (Dict.of t) cs = .ok (es, r) → (Value.dict es).Storable

theorem Sound.value_succ (hsound : Sound fuel) (h : Json.value (fuel + 1) cs = .ok (v, r)) :
    v.Storable := by
  rw [Json.value.eq_def] at h
  dsimp only at h
  split at h
  · obtain ⟨p, -, h⟩ := bind_eq_ok.1 h
    cases h
    exact Value.storable_scalar trivial
  · split at h
    · cases h
      exact Value.storable_ofTable (t := []) .nil (by simp)
    · obtain ⟨p, hp, h⟩ := bind_eq_ok.1 h
      cases h
      exact hsound.members [] _ _ _ .nil (by simp) hp
  · split at h
    · cases h
      exact Value.storable_list (by simp)
    · obtain ⟨p, hp, h⟩ := bind_eq_ok.1 h
      cases h
      exact Value.storable_list (hsound.elements _ _ _ hp)
  · split at h
    · rename_i hword
      cases h
      exact Value.storable_scalar (serializable_of_word hword)
    · obtain ⟨p, hp, h⟩ := bind_eq_ok.1 h
      cases h
      exact Value.storable_scalar (serializable_of_number hp)

theorem Sound.elements_succ (hsound : Sound fuel) {vs : List Value}
    (h : Json.elements (fuel + 1) cs = .ok (vs, r)) : ∀ v ∈ vs, v.Storable := by
  rw [Json.elements] at h
  obtain ⟨p, hp, h⟩ := bind_eq_ok.1 h
  have hv := hsound.value _ _ _ hp
  dsimp only at h
  split at h
  · cases h
    exact List.forall_mem_singleton.2 hv
  · obtain ⟨q, hq, h⟩ := bind_eq_ok.1 h
    cases h
    exact List.forall_mem_cons.2 ⟨hv, hsound.elements _ _ _ hq⟩
  · cases h

theorem Sound.members_succ (hsound : Sound fuel) {t : Table String Value} {es : Dict}
    (ht : t.Distinct) (hvs : ∀ e ∈ t, e.2.Storable)
    (h : Json.members (fuel + 1) (Dict.of t) cs = .ok (es, r)) : (Value.dict es).Storable := by
  rw [Json.members.eq_def] at h
  dsimp only at h
  split at h
  · obtain ⟨p, hp, h⟩ := bind_eq_ok.1 h
    split at h
    · obtain ⟨q, hq, h⟩ := bind_eq_ok.1 h
      obtain ⟨u, hu, hdistinct, hus⟩ := storable_insert ht hvs p.1 (hsound.value _ _ _ hq)
      rw [hu] at h
      split at h
      · cases h
        exact Value.storable_ofTable hdistinct hus
      · exact hsound.members u _ _ _ hdistinct hus h
      · cases h
    · cases h
  · cases h

theorem sound (fuel : Nat) : Sound fuel := by
  induction fuel with
  | zero => exact ⟨nofun, nofun, nofun⟩
  | succ fuel ih =>
    exact ⟨fun _ _ _ => ih.value_succ, fun _ _ _ => ih.elements_succ,
      fun _ _ _ _ => ih.members_succ⟩

/-- A document that is read from JSON can be written. -/
theorem storable_of_read {text : String} (h : read text = .ok v) : v.Storable := by
  rw [read, mapError_eq_ok, document.eq_def] at h
  split at h
  · cases h
  · obtain ⟨p, hp, h⟩ := bind_eq_ok.1 h
    dsimp only at h
    split at h
    · cases h
      exact (sound _).value _ _ _ hp
    · cases h

end Documents

end Json

end BuildPipeline
