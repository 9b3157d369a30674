import BuildPipeline.Proofs.Json.WrittenScalars
import BuildPipeline.Proofs.JsonLaws
import BuildPipeline.Proofs.SpecDocuments

/-!
Documents that differ in the order of their keys only. With every mapping sorted by key a document
takes a form of its own, and two documents share it exactly if one is the other reordered.
-/

namespace BuildPipeline

open Yaml (Portable PortableScalar PortableAll PortableEntries IsText portableAll_iff
  portableEntries_iff)

namespace Value

mutual

/-- One document is the other with the entries of its mappings in another order. -/
def Reordered : Value → Value → Prop
  | .list vs, .list ws => ReorderedAll vs ws
  | .pair k v, .pair k' v' => Reordered k k' ∧ Reordered v v'
  | .dict es, .dict fs => es.length = fs.length ∧ ReorderedIn fs es
  | v, w => v = w

def ReorderedAll : List Value → List Value → Prop
  | [], [] => True
  | v :: vs, w :: ws => Reordered v w ∧ ReorderedAll vs ws
  | _, _ => False

/-- Each entry is found in a mapping, reordered. -/
def ReorderedIn (fs : Dict) : List (Scalar × Value) → Prop
  | [] => True
  | (k, v) :: es => (∃ w, Table.get? fs k = some w ∧ Reordered v w) ∧ ReorderedIn fs es

end

mutual

/-- A document with every mapping in the order of its keys. -/
def sorted : Value → Value
  | .list vs => .list (sortedAll vs)
  | .pair k v => .pair k.sorted v.sorted
  | .dict es => .dict ((sortedEntries es).mergeSort fun e f =>
      match Json.textKey? e.1, Json.textKey? f.1 with
      | some s, some t => !decide (t < s)
      | _, _ => true)
  | v => v

def sortedAll : List Value → List Value
  | [] => []
  | v :: vs => v.sorted :: sortedAll vs

def sortedEntries : List (Scalar × Value) → List (Scalar × Value)
  | [] => []
  | (k, v) :: es => (k, v.sorted) :: sortedEntries es

end

variable {v w : Value} {vs ws : List Value} {t u : Table String Value}

theorem reorderedAll_iff : ReorderedAll vs ws ↔ List.Forall₂ Reordered vs ws := by
  induction vs generalizing ws with
  | nil => cases ws <;> simp [ReorderedAll]
  | cons v vs ih => cases ws <;> simp [ReorderedAll, ih]

theorem reorderedIn_iff {fs es : Dict} : ReorderedIn fs es
    ↔ ∀ e ∈ es, ∃ w, Table.get? fs e.1 = some w ∧ Reordered e.2 w := by
  induction es with
  | nil => simp [ReorderedIn]
  | cons e es ih => simp [ReorderedIn, ih]

theorem reordered_ofTable : Reordered (.ofTable t) (.ofTable u)
    ↔ t.length = u.length ∧ ∀ e ∈ t, ∃ w, Table.get? u e.1 = some w ∧ Reordered e.2 w := by
  change (Dict.of t).length = (Dict.of u).length ∧ ReorderedIn (Dict.of u) (Dict.of t) ↔ _
  rw [reorderedIn_iff, Dict.of, List.length_map, Dict.of, List.length_map, List.forall_mem_map]
  exact and_congr_right fun _ => forall₂_congr fun e _ => by rw [← get?_of]; rfl

theorem sortedAll_eq (vs : List Value) : sortedAll vs = vs.map sorted := by
  induction vs with
  | nil => rfl
  | cons v vs ih => rw [sortedAll, ih, List.map_cons]

theorem sortedEntries_eq (es : Dict) : sortedEntries es = Table.mapValues sorted es := by
  induction es with
  | nil => rfl
  | cons e es ih => rw [sortedEntries, ih, Table.mapValues, Table.mapValues, List.map_cons]

theorem sorted_list (vs : List Value) : sorted (.list vs) = .list (vs.map sorted) := by
  rw [sorted, sortedAll_eq]

theorem sorted_ofTable (t : Table String Value) : sorted (.ofTable t)
    = .ofTable ((Table.mapValues sorted t).mergeSort Json.keyBefore) := by
  have hmap : sortedEntries (Dict.of t) = Dict.of (Table.mapValues sorted t) := by
    rw [sortedEntries_eq, Dict.of, Dict.of, Table.mapValues, Table.mapValues, List.map_map,
      List.map_map]
    rfl
  have hsort := List.map_mergeSort (l := Table.mapValues sorted t) (r := Json.keyBefore)
    (s := fun e f : Scalar × Value => match Json.textKey? e.1, Json.textKey? f.1 with
      | some s, some t => !decide (t < s)
      | _, _ => true)
    (f := fun e => (Scalar.str e.1, e.2)) fun _ _ _ _ => rfl
  rw [ofTable, sorted]
  change Value.dict ((sortedEntries (Dict.of t)).mergeSort _) = _
  rw [hmap, Dict.of, ← hsort]
  rfl

end Value

namespace Json

variable {α : Type} {t u : Table String α}

theorem keyBefore_iff {e f : String × α} : keyBefore e f ↔ e.1 ≤ f.1 := by
  rw [keyBefore, Bool.not_eq_true', decide_eq_false_iff_not, String.not_lt]

theorem pairwise_mergeSort_keyBefore (t : Table String α) :
    (t.mergeSort keyBefore).Pairwise fun e f => e.1 ≤ f.1 := by
  have hsorted := @List.pairwise_mergeSort _ keyBefore
    (fun e f g hef hfg => keyBefore_iff.2
      (String.le_trans (keyBefore_iff.1 hef) (keyBefore_iff.1 hfg)))
    (fun e f => by simpa [keyBefore_iff] using String.le_total e.1 f.1) t
  exact hsorted.imp keyBefore_iff.1

/-- Sorting forgets the order of the entries and nothing else. -/
theorem mergeSort_eq_iff_perm (h : Table.Distinct t) :
    t.mergeSort keyBefore = u.mergeSort keyBefore ↔ t.Perm u := by
  have ht := List.mergeSort_perm t keyBefore
  have hu := List.mergeSort_perm u keyBefore
  constructor
  · intro heq
    rw [← heq] at hu
    exact ht.symm.trans hu
  · intro hp
    refine (ht.trans (hp.trans hu.symm)).eq_of_pairwise (fun e f he hf hef hfe => ?_)
      (pairwise_mergeSort_keyBefore t) (pairwise_mergeSort_keyBefore u)
    -- Two entries under one key are one entry.
    have hkey := String.le_antisymm hef hfe
    have hfound := Table.get?_of_mem h (List.mem_mergeSort.1 he)
    rw [hkey, Table.get?_of_mem h (hp.mem_iff.2 (List.mem_mergeSort.1 hf))] at hfound
    exact Prod.ext hkey (Option.some.inj hfound).symm

end Json

/-- Documents that JSON has: some scalars, lists, and tables under distinct texts. -/
inductive Value.IsJson : Value → Prop
  | scalar (s : Scalar) (h : s.IsJson) : IsJson (.scalar s)
  | list (vs : List Value) (h : ∀ v ∈ vs, IsJson v) : IsJson (.list vs)
  | table (t : Table String Value) (hd : Table.Distinct t) (h : ∀ e ∈ t, IsJson e.2) :
    IsJson (.ofTable t)

section Portable

theorem exists_table {es : Dict} (h : Table.Distinct es) (hkeys : ∀ e ∈ es, IsText e.1) :
    ∃ t : Table String Value, es = Dict.of t ∧ Table.Distinct t := by
  induction es with
  | nil => exact ⟨[], rfl, .nil⟩
  | cons e es ih =>
    obtain ⟨hnew, hrest⟩ := List.pairwise_cons.1 h
    obtain ⟨t, rfl, ht⟩ := ih hrest fun f hf => hkeys f (List.mem_cons_of_mem e hf)
    obtain ⟨k, v⟩ := e
    cases k with
    | str s =>
      refine ⟨(s, v) :: t, rfl, List.pairwise_cons.2 ⟨fun f hf => ?_, ht⟩⟩
      simpa [Scalar.str_beq] using hnew (.str f.1, f.2) (List.mem_map_of_mem hf)
    | _ => exact (hkeys _ List.mem_cons_self).elim

theorem portable_list {vs : List Value} (h : ∀ v ∈ vs, Portable v) : Portable (.list vs) :=
  portableAll_iff.2 h

variable {motive : (v : Value) → Portable v → Prop}
  (scalar : ∀ s (h : PortableScalar s), motive (.scalar s) h)
  (list : ∀ vs (h : ∀ v ∈ vs, Portable v), (∀ v hv, motive v (h v hv)) →
    motive (.list vs) (portable_list h))
  (table : ∀ (t : Table String Value) (ht : Table.Distinct t) (h : ∀ e ∈ t, Portable e.2),
    (∀ e he, motive e.2 (h e he)) → motive (.ofTable t) (portable_ofTable ht h))

include scalar list table

/-- What holds of scalars, and of lists and tables if it holds of what is in them, holds of every
portable document. -/
theorem portable_induction (v : Value) (h : Portable v) : motive v h := by
  cases v with
  | scalar s => exact scalar s h
  | list vs => exact list vs (portableAll_iff.1 h) fun v hv => portable_induction v _
  | dict es =>
    have hes (e) (he : e ∈ es) : motive e.2 (portableEntries_iff.1 h.2 e he).2 :=
      portable_induction e.2 _
    obtain ⟨t, rfl, ht⟩ := exists_table h.1 fun e he => (portableEntries_iff.1 h.2 e he).1
    have hmem {e} (he : e ∈ t) : (Scalar.str e.1, e.2) ∈ Dict.of t := List.mem_map_of_mem he
    exact table t ht (fun e he => (portableEntries_iff.1 h.2 _ (hmem he)).2)
      fun e he => hes _ (hmem he)
  | _ => exact h.elim
termination_by sizeOf v
decreasing_by
  · rename_i heq
    have := List.sizeOf_lt_of_mem hv
    rw [heq, Value.list.sizeOf_spec]
    omega
  · rename_i heq
    have := List.sizeOf_lt_of_mem he
    have : sizeOf e = 1 + sizeOf e.1 + sizeOf e.2 := rfl
    rw [heq, Value.dict.sizeOf_spec]
    omega

end Portable

theorem Value.IsJson.of_portable {v : Value} (h : Portable v) : v.IsJson := by
  induction v, h using portable_induction with
  | scalar s hs =>
    cases s with
    | null | bool | int | str => exact .scalar _ trivial
    | _ => exact hs.elim
  | list vs hvs ih => exact .list vs ih
  | table t ht hvs ih => exact .table t ht ih

theorem over_of_isJson {d : Dict} (h : (Value.dict d).IsJson) : d.Over Value.IsJson := by
  generalize hv : Value.dict d = v at h
  cases h with
  | table t ht hvs =>
    obtain rfl := Value.dict.inj hv
    exact Dict.over_of ht hvs
  | _ => cases hv

theorem admits_isJson : Admits Value.IsJson where
  null := .scalar _ trivial
  text _ := .scalar _ trivial
  int _ := .scalar _ trivial
  texts _ := .list _ (List.forall_mem_map.2 fun _ _ => .scalar _ trivial)
  dict := by
    rintro _ ⟨t, rfl, hdistinct, ht⟩
    exact .table t hdistinct ht
  field d name v h hv := (over_of_isJson h).field hv

namespace Value

variable {v w : Value} {t u : Table String Value}

theorem ofTable_inj : Value.ofTable t = .ofTable u ↔ t = u := by
  refine ⟨fun h => ?_, congrArg _⟩
  have hinj : Function.Injective fun e : String × Value => (Scalar.str e.1, e.2) :=
    fun e f hef => by simpa [Prod.ext_iff] using hef
  exact hinj.list_map (Value.dict.inj h)

/-- Two tables are sorted alike if they hold the same entries, sorted. -/
theorem sorted_ofTable_eq_iff (ht : Table.Distinct t) :
    sorted (.ofTable t) = sorted (.ofTable u) ↔ t.length = u.length
      ∧ ∀ e ∈ t, ∃ w, Table.get? u e.1 = some w ∧ e.2.sorted = w.sorted := by
  rw [sorted_ofTable, sorted_ofTable, ofTable_inj, Json.mergeSort_eq_iff_perm (ht.mapValues _),
    Table.perm_iff (ht.mapValues _)]
  simp only [Table.mapValues, List.length_map, List.forall_mem_map]
  refine and_congr_right fun _ => forall₂_congr fun e _ => ?_
  rw [← Table.mapValues, Table.get?_mapValues, Option.map_eq_some_iff]
  exact exists_congr fun w => and_congr_right fun _ => eq_comm

theorem forall₂_reordered {vs ws : List Value}
    (h : ∀ v ∈ vs, ∀ w ∈ ws, (Reordered v w ↔ v.sorted = w.sorted)) :
    List.Forall₂ Reordered vs ws ↔ vs.map sorted = ws.map sorted := by
  induction vs generalizing ws with
  | nil => cases ws <;> simp
  | cons v vs ih =>
    cases ws with
    | nil => simp
    | cons w ws =>
      have hrest := ih fun v' hv w' hw =>
        h v' (List.mem_cons_of_mem v hv) w' (List.mem_cons_of_mem w hw)
      rw [List.forall₂_cons, h v List.mem_cons_self w List.mem_cons_self, hrest]
      simp

/-- One document is the other reordered exactly if sorting makes them the same. -/
theorem IsJson.reordered_iff (hv : v.IsJson) (hw : w.IsJson) :
    Reordered v w ↔ v.sorted = w.sorted := by
  induction hv generalizing w with
  | scalar s => cases w <;> simp [Reordered, Value.sorted]
  | list vs hvs ih =>
    cases hw with
    | list ws hws =>
      rw [Reordered, reorderedAll_iff, sorted_list, sorted_list, Value.list.injEq]
      exact forall₂_reordered fun v hv w hw => ih v hv (hws w hw)
    | _ => simp [Reordered, ofTable, Value.sorted]
  | table t ht hvs ih =>
    cases hw with
    | table u hu hus =>
      rw [reordered_ofTable, sorted_ofTable_eq_iff ht]
      refine and_congr_right fun _ => forall₂_congr fun e he => exists_congr fun w => ?_
      exact and_congr_right fun hfound => ih e he (hus _ (Table.mem_of_get?_eq hfound))
    | _ => simp [ofTable, Reordered, Value.sorted]

theorem IsJson.sorted (h : v.IsJson) : v.sorted.IsJson := by
  induction h with
  | scalar s hs => exact .scalar s hs
  | list vs hvs ih =>
    rw [sorted_list]
    exact .list _ (List.forall_mem_map.2 ih)
  | table t ht hvs ih =>
    rw [sorted_ofTable]
    have hp := List.mergeSort_perm (Table.mapValues Value.sorted t) Json.keyBefore
    refine .table _ ((ht.mapValues _).perm hp.symm) fun e he => ?_
    obtain ⟨f, hf, rfl⟩ := List.mem_map.1 (hp.mem_iff.1 he)
    exact ih f hf

theorem IsJson.sorted_sorted (h : v.IsJson) : v.sorted.sorted = v.sorted := by
  induction h with
  | scalar s => rfl
  | list vs hvs ih =>
    rw [sorted_list, sorted_list, List.map_map]
    exact congrArg Value.list (List.map_congr_left ih)
  | table t ht hvs ih =>
    have hmap : Table.mapValues Value.sorted (Table.mapValues Value.sorted t)
        = Table.mapValues Value.sorted t := by
      rw [Table.mapValues, Table.mapValues, List.map_map]
      exact List.map_congr_left fun e he => Prod.ext rfl (ih e he)
    rw [sorted_ofTable, sorted_ofTable, Json.mapValues_mergeSort, hmap,
      List.mergeSort_of_pairwise]
    exact (Json.pairwise_mergeSort_keyBefore _).imp Json.keyBefore_iff.2

/-- Sorting is a reordering. -/
theorem IsJson.reordered_sorted (h : v.IsJson) : Reordered v.sorted v :=
  (h.sorted.reordered_iff h).2 h.sorted_sorted

theorem reordered_iff (hv : Portable v) (hw : Portable w) : Reordered v w ↔ v.sorted = w.sorted :=
  (IsJson.of_portable hv).reordered_iff (.of_portable hw)

theorem reordered_sorted (h : Portable v) : Reordered v.sorted v :=
  (IsJson.of_portable h).reordered_sorted

end Value

end BuildPipeline
