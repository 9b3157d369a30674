import BuildPipeline.Document.Shape
import BuildPipeline.Proofs.TableLaws

/-! Laws of documents: fields by name, and mappings and lists taken apart. -/

namespace BuildPipeline

@[simp] theorem mapError_ok {ε ε' α : Type} (f : ε → ε') (a : α) :
    (Except.ok a).mapError f = .ok a := rfl

@[simp] theorem mapError_error {ε ε' α : Type} (f : ε → ε') (e : ε) :
    (Except.error e : Except ε α).mapError f = .error (f e) := rfl

section Except

variable {ε ε' α β : Type}

theorem ok_bind (a : α) (f : α → Except ε β) : (Except.ok a >>= f) = f a := rfl

theorem bind_eq_ok {x : Except ε α} {f : α → Except ε β} {b : β} :
    x >>= f = .ok b ↔ ∃ a, x = .ok a ∧ f a = .ok b := by
  constructor
  · intro h
    cases x with
    | ok a => exact ⟨a, rfl, h⟩
    | error e => cases h
  · rintro ⟨a, rfl, h⟩
    exact h

theorem mapError_eq_ok {f : ε → ε'} {x : Except ε α} {a : α} :
    x.mapError f = .ok a ↔ x = .ok a := by
  cases x <;> simp

theorem map_eq_ok {f : α → β} {x : Except ε α} {b : β} :
    x.map f = .ok b ↔ ∃ a, x = .ok a ∧ f a = b := by
  cases x <;> simp [Except.map]

theorem forM_eq_ok {f : α → Except ε Unit} {as : List α} :
    forM as f = .ok () ↔ ∀ a ∈ as, f a = .ok () := by
  induction as with
  | nil => simp [pure, Except.pure]
  | cons a as ih =>
    rw [List.forM_cons]
    cases h : f a with
    | error e => simp [h, bind, Except.bind]
    | ok u => simpa [h, bind, Except.bind] using ih

theorem exists_mem_of_forall₂ {r : α → β → Prop} {as : List α} {bs : List β}
    (h : List.Forall₂ r as bs) {b : β} (hb : b ∈ bs) : ∃ a ∈ as, r a b := by
  induction h with
  | nil => cases hb
  | cons hr _ ih =>
    cases hb with
    | head => exact ⟨_, List.mem_cons_self, hr⟩
    | tail _ hb =>
      obtain ⟨a, ha, hr⟩ := ih hb
      exact ⟨a, List.mem_cons_of_mem _ ha, hr⟩

theorem mapM_congr {f g : α → Except ε β} {as : List α} (h : ∀ a ∈ as, f a = g a) :
    as.mapM f = as.mapM g := by
  induction as with
  | nil => rfl
  | cons a as ih =>
    rw [List.mapM_cons, List.mapM_cons, h a List.mem_cons_self,
      ih fun b hb => h b (List.mem_cons_of_mem a hb)]

theorem mapM_eq_ok {f : α → Except ε β} {as : List α} {bs : List β} :
    as.mapM f = .ok bs ↔ List.Forall₂ (fun a b => f a = .ok b) as bs := by
  induction as generalizing bs with
  | nil =>
    rw [List.forall₂_nil_left_iff]
    exact ⟨fun h => (Except.ok.inj h).symm, fun h => by rw [h]; rfl⟩
  | cons a as ih =>
    rw [List.mapM_cons, bind_eq_ok, List.forall₂_cons_left_iff]
    refine exists_congr fun b => ?_
    rw [bind_eq_ok]
    constructor
    · rintro ⟨ha, bs', has, h⟩
      exact ⟨bs', ha, ih.1 has, (Except.ok.inj h).symm⟩
    · rintro ⟨bs', ha, has, rfl⟩
      exact ⟨ha, bs', ih.2 has, rfl⟩

theorem exists_of_mapM_eq_error {f : α → Except ε β} {as : List α} {e : ε}
    (h : as.mapM f = .error e) : ∃ a ∈ as, f a = .error e := by
  induction as with
  | nil => cases h
  | cons a as ih =>
    rw [List.mapM_cons] at h
    cases ha : f a with
    | error e' =>
      rw [ha] at h
      cases h
      exact ⟨a, List.mem_cons_self, ha⟩
    | ok b =>
      cases has : as.mapM f with
      | error e' =>
        rw [ha, has] at h
        cases h
        obtain ⟨a', ha', he⟩ := ih has
        exact ⟨a', List.mem_cons_of_mem a ha', he⟩
      | ok bs =>
        rw [ha, has] at h
        cases h

theorem exists_mapM_eq_ok {f : α → Except ε β} {r : α → β → Prop} {as : List α}
    (h : ∀ a ∈ as, ∃ b, f a = .ok b ∧ r a b) :
    ∃ bs, as.mapM f = .ok bs ∧ List.Forall₂ r as bs := by
  induction as with
  | nil => exact ⟨[], rfl, .nil⟩
  | cons a as ih =>
    obtain ⟨b, ha, hr⟩ := h a List.mem_cons_self
    obtain ⟨bs, has, hrs⟩ := ih fun a' ha' => h a' (List.mem_cons_of_mem a ha')
    refine ⟨b :: bs, ?_, .cons hr hrs⟩
    rw [List.mapM_cons, ha, has]
    rfl

end Except

theorem Scalar.str_beq (a b : String) : (Scalar.str a == .str b) = decide (a = b) := by
  rw [Bool.eq_iff_iff, Scalar.beq_iff]
  simp [Scalar.identity]

namespace Dict

@[simp] theorem field_nil (name : String) : field [] name = none := rfl

theorem field_set (d : Dict) (name : String) (v : Value) (other : String) :
    field (set d name v) other = if name = other then some v else field d other := by
  rw [field, set, Table.get?_insert, Scalar.str_beq]
  simp [field]

theorem field_cons (name : String) (v : Value) (d : Dict) (other : String) :
    field ((.str name, v) :: d) other = if name = other then some v else field d other := by
  simp [field, Table.get?, Scalar.str_beq]

theorem set_of (t : Table String Value) (name : String) (v : Value) :
    set (of t) name v = of (Table.insert t name v) := by
  induction t with
  | nil => rfl
  | cons e t ih =>
    change (if Scalar.str e.1 == .str name then (Scalar.str e.1, v) :: of t
      else (Scalar.str e.1, e.2) :: set (of t) name v) = _
    rw [ih, Scalar.str_beq, Table.insert]
    by_cases he : e.1 = name <;> simp [he, of]

@[simp] theorem union_of_nil (d : Dict) : Table.union d (of []) = d := rfl

theorem union_of_cons (d : Dict) (name : String) (v : Value) (t : Table String Value) :
    Table.union d (of ((name, v) :: t)) = Table.union (set d name v) (of t) := rfl

theorem field_union_of (d : Dict) {t : Table String Value} {name : String}
    (h : ∀ e ∈ t, e.1 ≠ name) : field (Table.union d (of t)) name = field d name := by
  refine Table.get?_union fun e he => ?_
  obtain ⟨f, hf, rfl⟩ := List.mem_map.1 he
  rw [Scalar.str_beq]
  simpa using h f hf

end Dict

namespace Value

theorem get?_of (t : Table String Value) (name : String) :
    Table.get? (Dict.of t) (.str name) = Table.get? t name := by
  induction t with
  | nil => rfl
  | cons e t ih =>
    change (if Scalar.str e.1 == .str name then some e.2
      else Table.get? (Dict.of t) (.str name)) = _
    rw [ih, Table.get?, Scalar.str_beq]
    simp

theorem toDict_dict (d : Dict) : (Value.dict d).toDict = .ok d := rfl

theorem items_dict (d : Dict) : ((Value.dict d).orElse (.dict [])).items = .ok d := by
  cases d <;> rfl

theorem elements_list (vs : List Value) :
    ((Value.list vs).orElse (.list [])).elements = .ok vs := by
  cases vs <;> rfl

/-- The entries of a mapping of mappings, read one by one. -/
theorem mapM_toDict_of (t : Table String Dict) :
    (Dict.of (t.mapValues .dict)).mapM (fun e => do return (e.1.text, ← e.2.toDict))
      = (.ok t : Except ShapeError _) := by
  rw [mapM_eq_ok, Dict.of, Table.mapValues, List.map_map, List.forall₂_map_left_iff]
  exact List.forall₂_same.2 fun e _ => rfl

end Value

section Tables

variable {t : Table String Value}

theorem distinct_of (h : Table.Distinct t) : Table.Distinct (Dict.of t) :=
  List.pairwise_map.2 <| h.imp fun {e f} hef => by simpa [Scalar.str_beq] using hef

theorem Dict.field_union_of_distinct (d : Dict) (h : t.Distinct) (name : String) :
    Dict.field (Table.union d (Dict.of t)) name = (Table.get? t name).or (Dict.field d name) := by
  rw [Dict.field, Table.get?_union_of_distinct (distinct_of h), Value.get?_of, Dict.field]

end Tables

end BuildPipeline
