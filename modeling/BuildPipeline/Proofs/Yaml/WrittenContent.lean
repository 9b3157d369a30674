import BuildPipeline.Proofs.TableLaws
import BuildPipeline.Proofs.Yaml.ContentLaws
import BuildPipeline.Proofs.Yaml.WrittenNodes
import BuildPipeline.Proofs.Yaml.WrittenNumbers

/-!
What a document is read as. A text with a next-line character that is written in single quotes is
read without it, and a whole number with too many digits is not read at all; everything else is read
as itself.
-/

namespace BuildPipeline.Yaml

open Parse (plainTag)

variable {s k : Scalar} {v : Value} {vs : List Value} {es : List (Scalar × Value)} {simple : Bool}

section Values

/-- Scalars with a text of their own that no two of them share. -/
def PortableScalar : Scalar → Prop
  | .null | .bool _ | .int _ | .str _ => True
  | .float _ | .bytes _ | .date _ | .moment _ => False

def IsText : Scalar → Prop
  | .str _ => True
  | _ => False

mutual

/-- Texts, whole numbers, truth values and nothing, lists of them, and mappings whose keys are
distinct texts. -/
def Portable : Value → Prop
  | .scalar s => PortableScalar s
  | .list vs => PortableAll vs
  | .dict es => Table.Distinct es ∧ PortableEntries es
  | .pair _ _ | .set _ | .loop _ => False

def PortableAll : List Value → Prop
  | [] => True
  | v :: vs => Portable v ∧ PortableAll vs

def PortableEntries : List (Scalar × Value) → Prop
  | [] => True
  | (k, v) :: es => (IsText k ∧ Portable v) ∧ PortableEntries es

end

instance : (s : Scalar) → Decidable (PortableScalar s)
  | .null | .bool _ | .int _ | .str _ => .isTrue trivial
  | .float _ | .bytes _ | .date _ | .moment _ => .isFalse not_false

instance : (k : Scalar) → Decidable (IsText k)
  | .str _ => .isTrue trivial
  | .null | .bool _ | .int _ | .float _ | .bytes _ | .date _ | .moment _ => .isFalse not_false

mutual

instance decidablePortable : (v : Value) → Decidable (Portable v)
  | .scalar s => inferInstanceAs (Decidable (PortableScalar s))
  | .list vs => decidablePortableAll vs
  | .dict es => @instDecidableAnd _ _ inferInstance (decidablePortableEntries es)
  | .pair _ _ | .set _ | .loop _ => .isFalse not_false

instance decidablePortableAll : (vs : List Value) → Decidable (PortableAll vs)
  | [] => .isTrue trivial
  | v :: vs => @instDecidableAnd _ _ (decidablePortable v) (decidablePortableAll vs)

instance decidablePortableEntries :
    (es : List (Scalar × Value)) → Decidable (PortableEntries es)
  | [] => .isTrue trivial
  | (_, v) :: es => @instDecidableAnd _ _
    (@instDecidableAnd _ _ inferInstance (decidablePortable v)) (decidablePortableEntries es)

end

/-- Single quotes do not keep a next-line character. -/
def LegibleText (cs : List Char) : Prop := '\u0085' ∈ cs → ¬allowsSingle cs

def LegibleScalar : Scalar → Prop
  | .str s => LegibleText s.toList
  | .int n => (Nat.toDigits 10 n.natAbs).length ≤ Json.maxDigits
  | _ => True

mutual

/-- Every text and every whole number is read as itself. -/
def Legible : Value → Prop
  | .scalar s => LegibleScalar s
  | .list vs => LegibleAll vs
  | .pair k v => Legible k ∧ Legible v
  | .dict es => LegibleEntries es
  | .set _ | .loop _ => True

def LegibleAll : List Value → Prop
  | [] => True
  | v :: vs => Legible v ∧ LegibleAll vs

def LegibleEntries : List (Scalar × Value) → Prop
  | [] => True
  | (k, v) :: es => (LegibleScalar k ∧ Legible v) ∧ LegibleEntries es

end

instance : (s : Scalar) → Decidable (LegibleScalar s)
  | .str t => inferInstanceAs (Decidable ('\u0085' ∈ t.toList → ¬allowsSingle t.toList))
  | .int n => inferInstanceAs (Decidable ((Nat.toDigits 10 n.natAbs).length ≤ Json.maxDigits))
  | .null | .bool _ | .float _ | .bytes _ | .date _ | .moment _ => .isTrue trivial

mutual

instance decidableLegible : (v : Value) → Decidable (Legible v)
  | .scalar s => inferInstanceAs (Decidable (LegibleScalar s))
  | .list vs => decidableLegibleAll vs
  | .pair k v => @instDecidableAnd _ _ (decidableLegible k) (decidableLegible v)
  | .dict es => decidableLegibleEntries es
  | .set _ | .loop _ => .isTrue trivial

instance decidableLegibleAll : (vs : List Value) → Decidable (LegibleAll vs)
  | [] => .isTrue trivial
  | v :: vs => @instDecidableAnd _ _ (decidableLegible v) (decidableLegibleAll vs)

instance decidableLegibleEntries : (es : List (Scalar × Value)) → Decidable (LegibleEntries es)
  | [] => .isTrue trivial
  | (_, v) :: es => @instDecidableAnd _ _
    (@instDecidableAnd _ _ inferInstance (decidableLegible v)) (decidableLegibleEntries es)

end

theorem legibleAll_iff : LegibleAll vs ↔ ∀ v ∈ vs, Legible v := by
  induction vs with
  | nil => simp [LegibleAll]
  | cons v vs ih => simp [LegibleAll, ih]

theorem legibleEntries_iff : LegibleEntries es ↔ ∀ e ∈ es, LegibleScalar e.1 ∧ Legible e.2 := by
  induction es with
  | nil => simp [LegibleEntries]
  | cons e es ih => simp only [LegibleEntries, ih, List.forall_mem_cons]

theorem portableAll_iff : PortableAll vs ↔ ∀ v ∈ vs, Portable v := by
  induction vs with
  | nil => simp [PortableAll]
  | cons v vs ih => simp [PortableAll, ih]

theorem portableEntries_iff : PortableEntries es ↔ ∀ e ∈ es, IsText e.1 ∧ Portable e.2 := by
  induction es with
  | nil => simp [PortableEntries]
  | cons e es ih => simp only [PortableEntries, ih, List.forall_mem_cons]

end Values

section Scalars

/-- The tag of a scalar is kept only without quotes. -/
def writtenTag (simple : Bool) (s : Scalar) : Tag :=
  if scalarStyle simple s = .plain then (scalarParts s).1 else .str

theorem scalarNode_eq (simple : Bool) (s : Scalar) :
    scalarNode simple s = .scalar (writtenTag simple s) (scalarReading simple s) := by
  rw [scalarNode, writtenTag]
  by_cases h : scalarStyle simple s = .plain
  · have htag : (scalarParts s).1 = .ofPlain (scalarReading simple s) := by
      rw [scalarReading, h]
      exact (styleOf_plain h).1
    simp [h, plainTag, htag]
  · simp [h, plainTag]

/-- No scalar is written as a merge key or as a value key. -/
theorem writtenTag_ne (simple : Bool) (s : Scalar) :
    writtenTag simple s ≠ .merge ∧ writtenTag simple s ≠ .value := by
  rw [writtenTag]
  split
  · cases s <;> simp [scalarParts]
  · simp

theorem content_scalarNode (simple : Bool) (s : Scalar) : (scalarNode simple s).content
    = .ofScalar (readScalar (writtenTag simple s) (scalarReading simple s)) := by
  have hempty : Node.emptyUnder (writtenTag simple s) = none := by
    rw [writtenTag]
    split
    · cases s <;> rfl
    · rfl
  rw [scalarNode_eq, Node.content, hempty]

theorem content_text (simple : Bool) (t : String) : (scalarNode simple (.str t)).content
    = .ofScalar (.ok (.str (String.ofList (scalarReading simple (.str t))))) := by
  have htag : writtenTag simple (.str t) = .str := by
    rw [writtenTag]
    split <;> rfl
  rw [content_scalarNode, htag]
  rfl

theorem scalarStyle_of_plain (h : (scalarParts s).1 = .ofPlain (scalarParts s).2.toList)
    (hplain : allowsPlain (scalarParts s).2.toList) : scalarStyle false s = .plain :=
  if_pos ⟨h, by simp, hplain⟩

theorem content_plain (h : (scalarParts s).1 = .ofPlain (scalarParts s).2.toList)
    (hplain : allowsPlain (scalarParts s).2.toList) : (scalarNode false s).content
      = .ofScalar (readScalar (scalarParts s).1 (scalarParts s).2.toList) := by
  have hstyle := scalarStyle_of_plain h hplain
  rw [content_scalarNode, writtenTag, scalarReading, hstyle, if_pos rfl]
  rfl

theorem reading_of_legible {t : String} (h : LegibleText t.toList) (simple : Bool) :
    scalarReading simple (.str t) = t.toList := by
  rw [scalarReading]
  cases hstyle : scalarStyle simple (.str t) with
  | plain => rfl
  | single => exact echo_eq_self_iff.2 fun hmem => h hmem (styleOf_single hstyle).1
  | double => rfl

/-- A text that does not come back loses all its next-line characters. -/
theorem not_mem_reading {t : String} (h : ¬LegibleText t.toList)
    (hsimple : simple → isSimpleKey (.str t)) : '\u0085' ∉ scalarReading simple (.str t) := by
  obtain ⟨hmem, hsingle⟩ := Classical.not_imp.1 h
  have hline : isMultiline t.toList := List.any_eq_true.2 ⟨_, hmem, rfl⟩
  have hsimple : simple = false := Bool.eq_false_iff.2 fun hs => by
    have := isSimpleKey_oneLine (hsimple hs) _ hmem
    cases this
  have hempty : t.toList.isEmpty = false := List.isEmpty_eq_false_iff.2 (List.ne_nil_of_mem hmem)
  have hstyle : scalarStyle simple (.str t) = .single := by
    change styleOf .str simple t.toList = .single
    simp [styleOf, allowsPlain, hline, hsimple, hempty, Classical.not_not.1 hsingle]
  rw [scalarReading, hstyle]
  exact not_mem_echo false _

/-- Whatever a text is read as comes back when it is written in its turn. -/
theorem legible_reading {t : String} (hsimple : simple → isSimpleKey (.str t)) :
    LegibleText (scalarReading simple (.str t)) := by
  by_cases h : LegibleText t.toList
  · rwa [reading_of_legible h]
  · exact fun hmem => absurd hmem (not_mem_reading h hsimple)

theorem reading_eq_self_iff {t : String} (hsimple : simple → isSimpleKey (.str t)) :
    String.ofList (scalarReading simple (.str t)) = t ↔ LegibleText t.toList := by
  refine ⟨fun h => ?_, fun h => by rw [reading_of_legible h, String.ofList_toList]⟩
  have hlegible := legible_reading hsimple
  rwa [← String.toList_ofList (l := scalarReading simple (.str t)), h] at hlegible

theorem means_text (t : String) :
    (scalarNode false (.str t)).Means (.str t) ↔ LegibleText t.toList := by
  have hself : String.ofList (scalarReading false (.str t)) = t ↔ LegibleText t.toList :=
    reading_eq_self_iff (by simp)
  rw [Node.Means, content_text, ← hself]
  refine ⟨fun h => ?_, fun h => ⟨Content.clean_scalar _, ?_⟩⟩
  · injection h.2 with h
    injection h
  · rw [h]
    rfl

theorem means_int (n : Int) : (scalarNode false (.int n)).Means (.int n)
    ↔ (Nat.toDigits 10 n.natAbs).length ≤ Json.maxDigits := by
  have hwhole := whole_toString n
  have hread : readScalar .int (toString n).toList
      = ((readInt (toString n).toList).map Scalar.int).mapError .literal := rfl
  rw [Node.Means, content_plain (s := .int n) hwhole.ofPlain.symm hwhole.allowsPlain]
  change (Content.ofScalar (readScalar .int (toString n).toList)).Clean
    ∧ (Content.ofScalar (readScalar .int (toString n).toList)).value = _ ↔ _
  rw [hread, readInt_toString]
  by_cases h : Json.maxDigits < (Nat.toDigits 10 n.natAbs).length
  · rw [if_pos h]
    exact iff_of_false (fun hmeans => Content.not_clean_failed _ hmeans.1) (Nat.not_le.2 h)
  · rw [if_neg h]
    exact iff_of_true ⟨Content.clean_scalar _, rfl⟩ (Nat.not_lt.1 h)

theorem means_scalar (hs : PortableScalar s) :
    (scalarNode false s).Means (.scalar s) ↔ LegibleScalar s := by
  cases s with
  | null =>
    rw [Node.Means, content_plain rfl (by decide)]
    exact iff_of_true ⟨Content.clean_scalar _, rfl⟩ trivial
  | bool b =>
    have hplain : (scalarParts (.bool b)).1 = .ofPlain (scalarParts (.bool b)).2.toList
        ∧ allowsPlain (scalarParts (.bool b)).2.toList := by
      cases b <;> decide
    rw [Node.Means, content_plain hplain.1 hplain.2]
    cases b <;> exact iff_of_true ⟨Content.clean_scalar _, rfl⟩ trivial
  | int n => exact means_int n
  | str t => exact means_text t
  | _ => exact hs.elim

end Scalars

section Merges

theorem mergeEntries_of_own {es : List (Node × Node)}
    (h : ∀ e ∈ es, e.1.tag ≠ .merge ∧ e.1.plainKey = e.1) : Node.mergeEntries es = some es := by
  have hmerge : es.filter (·.1.tag == .merge) = [] :=
    List.filter_eq_nil_iff.2 fun e he => by simp [(h e he).1]
  have hown : es.filter (·.1.tag != .merge) = es :=
    List.filter_eq_self.2 fun e he => by simp [(h e he).1]
  have hmap : es.map (fun e => (e.1.plainKey, e.2)) = es :=
    (List.map_congr_left fun e he => by rw [(h e he).2]; rfl).trans (List.map_id es)
  rw [Node.mergeEntries, hmerge, hown, hmap]
  rfl

theorem plainKey_scalarNode (simple : Bool) (s : Scalar) :
    (scalarNode simple s).tag ≠ .merge ∧ (scalarNode simple s).plainKey = scalarNode simple s := by
  obtain ⟨hmerge, hvalue⟩ := writtenTag_ne simple s
  rw [scalarNode_eq]
  refine ⟨hmerge, ?_⟩
  rw [Node.plainKey]
  intro cs heq
  injection heq with htag
  exact hvalue htag

theorem mergeEntries_writtenEntries (es : List (Scalar × Value)) :
    Node.mergeEntries (writtenEntries es) = some (writtenEntries es) := by
  refine mergeEntries_of_own ?_
  induction es with
  | nil => simp [writtenEntries]
  | cons e es ih =>
    rw [writtenEntries, List.forall_mem_cons]
    exact ⟨plainKey_scalarNode _ _, ih⟩

theorem resolveMerges_scalarNode (simple : Bool) (s : Scalar) :
    (scalarNode simple s).resolveMerges = scalarNode simple s := rfl

mutual

/-- Nothing that is written is merged. -/
theorem resolveMerges_writtenNode : ∀ v, (writtenNode v).resolveMerges = writtenNode v
  | .scalar s => resolveMerges_scalarNode false s
  | .list vs => by rw [writtenNode, Node.resolveMerges, resolveItems_writtenItems]
  | .pair k v => by
    simp [writtenNode, Node.resolveMerges, Node.resolveItems, resolveMerges_writtenNode k,
      resolveMerges_writtenNode v]
  | .dict es => by
    simp [writtenNode, Node.resolveMerges, resolveEntries_writtenEntries es, Node.mergesUnder,
      mergeEntries_writtenEntries]
  | .set _ | .loop _ => resolveMerges_scalarNode false .null

theorem resolveItems_writtenItems : ∀ vs, Node.resolveItems (writtenItems vs) = writtenItems vs
  | [] => rfl
  | v :: vs => by
    rw [writtenItems, Node.resolveItems, resolveMerges_writtenNode v, resolveItems_writtenItems vs]

theorem resolveEntries_writtenEntries :
    ∀ es, Node.resolveEntries (writtenEntries es) = writtenEntries es
  | [] => rfl
  | (k, v) :: es => by
    rw [writtenEntries, Node.resolveEntries, resolveMerges_writtenNode v,
      resolveEntries_writtenEntries es, keyNode, resolveMerges_scalarNode]

end

end Merges

section Collections

theorem contents_writtenItems (vs : List Value) :
    Node.contents (writtenItems vs) = vs.map fun v => (writtenNode v).content := by
  induction vs with
  | nil => rfl
  | cons v vs ih => rw [writtenItems, Node.contents, ih, List.map_cons]

theorem entryContents_writtenEntries (es : List (Scalar × Value)) :
    Node.entryContents (writtenEntries es)
      = es.map fun e => ((keyNode e.1).content, (writtenNode e.2).content) := by
  induction es with
  | nil => rfl
  | cons e es ih => rw [writtenEntries, Node.entryContents, ih, List.map_cons]

theorem means_list :
    (writtenNode (.list vs)).Means (.list vs) ↔ ∀ v ∈ vs, (writtenNode v).Means v := by
  have hcontent : (writtenNode (.list vs)).content
      = .ofItems (.list (vs.map fun v => (writtenNode v).content.value))
        (vs.map fun v => (writtenNode v).content) := by
    rw [writtenNode, Node.content, contents_writtenItems, List.map_map]
    rfl
  have hvalue : vs.map (fun v => (writtenNode v).content.value) = vs
      ↔ ∀ v ∈ vs, (writtenNode v).content.value = v := by
    have hid := List.map_inj_left (l := vs) (f := fun v => (writtenNode v).content.value) (g := id)
    rwa [List.map_id] at hid
  rw [Node.Means, hcontent, Content.clean_ofItems, List.forall_mem_map]
  change _ ∧ Value.list _ = _ ↔ _
  rw [Value.list.injEq, hvalue]
  exact ⟨fun h v hv => ⟨h.1 v hv, h.2 v hv⟩,
    fun h => ⟨fun v hv => (h v hv).1, fun v hv => (h v hv).2⟩⟩

def heardKey (k : Scalar) : Scalar := .str (String.ofList (scalarReading (isSimpleKey k) k))

theorem content_keyNode (hk : IsText k) : (keyNode k).content = .ofScalar (.ok (heardKey k)) := by
  cases k with
  | str t => exact content_text _ t
  | _ => exact hk.elim

theorem heardKey_eq_self_iff (hk : IsText k) : heardKey k = k ↔ LegibleScalar k := by
  cases k with
  | str t =>
    rw [heardKey, Scalar.str.injEq]
    exact reading_eq_self_iff id
  | _ => exact hk.elim

theorem legible_heardKey (hk : IsText k) : LegibleScalar (heardKey k) := by
  cases k with
  | str t =>
    rw [heardKey, LegibleScalar, String.toList_ofList]
    exact legible_reading id
  | _ => exact hk.elim

/-- The entries of a mapping as they are read: keys that are read as one text give one entry. -/
def heardEntries (es : List (Scalar × Value)) : Dict :=
  Table.ofList (es.map fun e => (heardKey e.1, (writtenNode e.2).content.value))

theorem content_dict (hes : ∀ e ∈ es, IsText e.1) :
    (writtenNode (.dict es)).content.value = .dict (heardEntries es) := by
  have hkeys : ∀ e ∈ es, (keyNode e.1).content.value = .scalar (heardKey e.1) := fun e he => by
    rw [content_keyNode (hes e he)]
    rfl
  rw [writtenNode, Node.content, entryContents_writtenEntries]
  exact congrArg Value.dict (Content.dictOf_map hkeys)

theorem clean_dict (hes : ∀ e ∈ es, IsText e.1) : (writtenNode (.dict es)).content.Clean
    ↔ ∀ e ∈ es, (writtenNode e.2).content.Clean := by
  rw [writtenNode, Node.content, entryContents_writtenEntries]
  rw [Content.clean_ofEntries, List.forall_mem_map]
  refine forall_congr' fun e => forall_congr' fun he => ?_
  rw [content_keyNode (hes e he)]
  exact ⟨fun h => h.2.2, fun h => ⟨Content.clean_scalar _, rfl, h⟩⟩

/-- Only if every key comes back do the entries: a key that does not come back is none that another
one is read as. -/
theorem legible_of_heardEntries (hes : ∀ e ∈ es, IsText e.1) (h : heardEntries es = es) :
    ∀ e ∈ es, LegibleScalar e.1 := by
  intro e he
  have hmem : e.1 ∈ Table.keys (heardEntries es) := by
    rw [h]
    exact List.mem_map_of_mem he
  have hheard := Table.mem_keys_ofList hmem
  simp only [Table.keys, List.map_map, List.mem_map, Function.comp_apply] at hheard
  obtain ⟨f, hf, hfe⟩ := hheard
  exact hfe ▸ legible_heardKey (hes f hf)

theorem means_dict (hdistinct : Table.Distinct es) (hes : ∀ e ∈ es, IsText e.1) :
    (writtenNode (.dict es)).Means (.dict es)
      ↔ ∀ e ∈ es, LegibleScalar e.1 ∧ (writtenNode e.2).Means e.2 := by
  have hheard (hkeys : ∀ e ∈ es, LegibleScalar e.1) :
      heardEntries es = es.map fun e => (e.1, (writtenNode e.2).content.value) := by
    have hmap : es.map (fun e => (heardKey e.1, (writtenNode e.2).content.value))
        = es.map fun e => (e.1, (writtenNode e.2).content.value) :=
      List.map_congr_left fun e he => by rw [(heardKey_eq_self_iff (hes e he)).2 (hkeys e he)]
    rw [heardEntries, hmap]
    exact Table.ofList_of_distinct (List.pairwise_map.2 hdistinct)
  have hvalue : es.map (fun e => (e.1, (writtenNode e.2).content.value)) = es
      ↔ ∀ e ∈ es, (writtenNode e.2).content.value = e.2 := by
    have hid := List.map_inj_left (l := es) (f := fun e => (e.1, (writtenNode e.2).content.value))
      (g := id)
    rw [List.map_id] at hid
    refine hid.trans (forall_congr' fun e => forall_congr' fun _ => ?_)
    exact ⟨fun h => congrArg Prod.snd h, fun h => by rw [h]; rfl⟩
  rw [Node.Means, clean_dict hes, content_dict hes, Value.dict.injEq]
  refine ⟨fun h e he => ?_, fun h => ?_⟩
  · obtain ⟨hclean, h⟩ := h
    -- Legible keys stay apart, so that each entry is read by itself.
    have hkeys := legible_of_heardEntries hes h
    rw [hheard hkeys, hvalue] at h
    exact ⟨hkeys e he, hclean e he, h e he⟩
  · rw [hheard fun e he => (h e he).1, hvalue]
    exact ⟨fun e he => (h e he).2.1, fun e he => (h e he).2.2⟩

mutual

/-- A value comes back exactly if everything in it is legible. -/
theorem means_iff : ∀ v, Portable v → ((writtenNode v).Means v ↔ Legible v)
  | .scalar _, h => means_scalar h
  | .list vs, h => by
    rw [means_list, Legible, legibleAll_iff]
    exact forall_congr' fun v => forall_congr' (means_all_iff vs h v)
  | .dict es, h => by
    have hes := portableEntries_iff.1 h.2
    rw [means_dict h.1 fun e he => (hes e he).1, Legible, legibleEntries_iff]
    exact forall_congr' fun e => forall_congr' fun he =>
      and_congr_right fun _ => means_values_iff es h.2 e he

theorem means_all_iff : ∀ vs : List Value, PortableAll vs →
    ∀ v ∈ vs, ((writtenNode v).Means v ↔ Legible v)
  | [], _, _, h => absurd h List.not_mem_nil
  | v :: vs, h, w, hw =>
    (List.mem_cons.1 hw).elim (fun hwv => hwv ▸ means_iff v h.1) (means_all_iff vs h.2 w)

theorem means_values_iff : ∀ es : List (Scalar × Value), PortableEntries es →
    ∀ e ∈ es, ((writtenNode e.2).Means e.2 ↔ Legible e.2)
  | [], _, _, h => absurd h List.not_mem_nil
  | (_, v) :: es, h, f, hf =>
    (List.mem_cons.1 hf).elim (fun hfv => hfv ▸ means_iff v h.1.2) (means_values_iff es h.2 f)

end

theorem value_writtenNode {d : Dict} (h : Portable (.dict d)) :
    (writtenNode (.dict d)).value = .ok (.dict d) ↔ LegibleEntries d := by
  rw [Node.value_eq_ok, resolveMerges_writtenNode]
  exact means_iff (.dict d) h

end Collections

end BuildPipeline.Yaml
