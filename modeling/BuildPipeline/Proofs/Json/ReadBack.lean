import BuildPipeline.Proofs.Json.Reordering
import BuildPipeline.Proofs.Json.WrittenScalars

/-!
Reading what was written. A document that can be written is read as itself with its keys sorted, in
both layouts; so two portable documents have one text exactly if one is the other reordered.
-/

namespace BuildPipeline.Json

open Yaml (Portable forall_of_all)

variable {l : Layout} {depth fuel : Nat} {cs t gap gap' rest : List Char} {ts : List (List Char)}
  {v : Value} {vs : List Value} {k : String}

section Spaces

/-- Nothing, or a line feed and spaces. -/
def IsGap (gap : List Char) : Prop := gap = [] ∨ ∃ n, gap = '\n' :: List.replicate n ' '

theorem isGap_gap (l : Layout) (depth : Nat) : IsGap (l.gap depth) := by
  cases l with
  | compact => exact .inl rfl
  | indented => exact .inr ⟨_, rfl⟩

theorem IsGap.skip (h : IsGap gap) (cs : List Char) : skip (gap ++ cs) = skip cs := by
  have hspaces : ∀ c ∈ gap, isSpace c := by
    rcases h with rfl | ⟨n, rfl⟩
    · simp
    · simp [isSpace]
  exact List.dropWhile_append_of_pos hspaces

theorem IsGap.ends (h : IsGap gap) {c : Char} (hc : c ∈ [',', ']', '\x7d', '\n']) :
    Ends (gap ++ c :: rest) := by
  rcases h with rfl | ⟨n, rfl⟩
  · simpa [Ends] using hc
  · simp [Ends]

theorem skip_solid {c : Char} (h : isSpace c = false) (cs : List Char) :
    skip (c :: cs) = c :: cs := by simp [skip, h]

end Spaces

section Values

/-- A text that is read as a value, whatever ends it. -/
structure ReadsAs (cs : List Char) (v : Value) : Prop where
  front : ∃ c r, cs = c :: r ∧ c ∈ fronts
  value : ∀ fuel rest, cs.length ≤ fuel → Ends rest → value fuel (cs ++ rest) = .ok (v, rest)

theorem ReadsAs.skip (h : ReadsAs cs v) (rest : List Char) : skip (cs ++ rest) = cs ++ rest := by
  obtain ⟨c, r, rfl, hc⟩ := h.front
  have hsolid : ∀ c ∈ fronts, isSpace c = false := forall_of_all (by decide)
  exact skip_solid (hsolid c hc) _

/-- What stands behind the first element of a collection, up to its closing bracket. -/
def others (gap : List Char) (ts : List (List Char)) : List Char :=
  ts.flatMap fun t => ',' :: gap ++ t

theorem elements_readsAs (fuel : Nat) (rest : List Char) (hgap : IsGap gap)
    (hgap' : IsGap gap') (ht : ReadsAs t v) (hts : List.Forall₂ ReadsAs ts vs)
    (hfuel : (t ++ others gap ts ++ gap').length < fuel) :
    elements fuel (t ++ others gap ts ++ gap' ++ ']' :: rest) = .ok (v :: vs, rest) := by
  induction hts generalizing t v fuel with
  | nil =>
    obtain ⟨fuel, rfl⟩ := Nat.exists_eq_add_one_of_ne_zero (Nat.ne_zero_of_lt hfuel)
    have hread := ht.value fuel (gap' ++ ']' :: rest)
      (by simp only [others, List.flatMap_nil, List.length_append] at hfuel; omega)
      (hgap'.ends (by simp))
    simp only [others, List.flatMap_nil, List.append_nil, List.append_assoc]
    rw [elements, hread]
    simp only [bind, Except.bind, hgap'.skip, skip_solid (show isSpace ']' = false from rfl)]
  | cons ht' hts ih =>
    rename_i t' v' ts vs
    obtain ⟨fuel, rfl⟩ := Nat.exists_eq_add_one_of_ne_zero (Nat.ne_zero_of_lt hfuel)
    have hothers : others gap (t' :: ts) = ',' :: gap ++ (t' ++ others gap ts) := by
      simp [others]
    rw [hothers] at hfuel ⊢
    simp only [List.length_append, List.length_cons] at hfuel
    have hread := ht.value fuel
      (',' :: (gap ++ (t' ++ (others gap ts ++ (gap' ++ ']' :: rest)))))
      (by omega) (by simp [Ends])
    have hrest := ih fuel ht' (by simp only [List.length_append]; omega)
    simp only [List.append_assoc] at hrest
    simp only [List.cons_append, List.append_assoc]
    rw [elements, hread]
    simp only [bind, Except.bind, skip_solid (show isSpace ',' = false from rfl), hgap.skip,
      ht'.skip, hrest, pure, Except.pure]

/-- A text that is read as an entry of a table. -/
def EntryReadsAs (l : Layout) (cs : List Char) (e : String × Value) : Prop :=
  ∃ t, cs = quote e.1 ++ l.colon ++ t ∧ ReadsAs t e.2

theorem colon_eq (l : Layout) :
    ∃ r, l.colon = ':' :: r ∧ ∀ cs, skip (r ++ cs) = skip cs := by
  cases l with
  | compact => exact ⟨[], rfl, fun cs => rfl⟩
  | indented => exact ⟨[' '], rfl, fun cs => rfl⟩

theorem EntryReadsAs.skip {e : String × Value} (h : EntryReadsAs l cs e) (rest : List Char) :
    skip (cs ++ rest) = cs ++ rest := by
  obtain ⟨t, rfl, -⟩ := h
  exact skip_solid (show isSpace '"' = false from rfl) _

/-- What comes after an entry: the end of the object or another entry. -/
def afterEntry (fuel : Nat) (es : Dict) : List Char → Except Trouble (Dict × List Char)
  | '\x7d' :: r => .ok (es, r)
  | ',' :: r => members fuel es (Json.skip r)
  | r => .error (.syntaxAt .comma r.length)

theorem members_entry (h : EntryReadsAs l cs (k, v)) (hfuel : cs.length ≤ fuel)
    (hrest : Ends rest) (es : Dict) : members (fuel + 1) es (cs ++ rest)
      = afterEntry fuel (Table.insert es (.str k) v) (skip rest) := by
  obtain ⟨t, rfl, ht⟩ := h
  have hread := ht.value fuel rest
    (by simp only [List.length_append] at hfuel; omega) hrest
  obtain ⟨r, hcolon, hskip⟩ := colon_eq l
  have hquote : quote k ++ l.colon ++ t ++ rest
      = '"' :: (k.toList.flatMap escapeChar ++ '"' :: ':' :: (r ++ (t ++ rest))) := by
    simp [quote, hcolon]
  rw [hquote, members]
  simp only [bind, Except.bind, string_quote, skip_solid (show isSpace ':' = false from rfl), hskip,
    ht.skip, hread]
  rfl

theorem insert_of {es : Table String Value} (h : Table.Fresh es k) (v : Value) :
    Table.insert (Dict.of es) (.str k) v = Dict.of (es ++ [(k, v)]) := by
  have hfresh : Table.Fresh (Dict.of es) (.str k) := List.forall_mem_map.2 fun e he => by
    simpa [Scalar.str_beq] using h e he
  rw [Table.insert_of_fresh hfresh, Dict.of, Dict.of, List.map_append]
  rfl

theorem members_readsAs {es' : Table String Value} (fuel : Nat) (es : Table String Value)
    (rest : List Char) (hgap : IsGap gap) (hgap' : IsGap gap')
    (hes : Table.Distinct (es ++ (k, v) :: es')) (ht : EntryReadsAs l t (k, v))
    (hts : List.Forall₂ (EntryReadsAs l) ts es')
    (hfuel : (t ++ others gap ts ++ gap').length < fuel) :
    members fuel (Dict.of es) (t ++ others gap ts ++ gap' ++ '\x7d' :: rest)
      = .ok (Dict.of (es ++ (k, v) :: es'), rest) := by
  induction hts generalizing es t k v fuel with
  | nil =>
    obtain ⟨fuel, rfl⟩ := Nat.exists_eq_add_one_of_ne_zero (Nat.ne_zero_of_lt hfuel)
    simp only [others, List.flatMap_nil, List.append_nil, List.append_assoc] at hfuel ⊢
    rw [members_entry ht (by simp only [List.length_append] at hfuel; omega)
      (hgap'.ends (by simp)), hgap'.skip, skip_solid (show isSpace '\x7d' = false from rfl),
      insert_of hes.fresh]
    rfl
  | cons ht' hts ih =>
    rename_i t' e' ts es'
    obtain ⟨fuel, rfl⟩ := Nat.exists_eq_add_one_of_ne_zero (Nat.ne_zero_of_lt hfuel)
    have hothers : others gap (t' :: ts) = ',' :: gap ++ (t' ++ others gap ts) := by
      simp [others]
    rw [hothers] at hfuel ⊢
    simp only [List.length_append, List.length_cons] at hfuel
    have hes' : Table.Distinct ((es ++ [(k, v)]) ++ e' :: es') := by simpa using hes
    have hrest := ih fuel _ hes' ht' (by simp only [List.length_append]; omega)
    simp only [List.append_assoc] at hrest
    simp only [List.cons_append, List.append_assoc]
    have hcomma : isSpace ',' = false := rfl
    rw [members_entry ht (by omega) (by simp [Ends]), skip_solid hcomma, insert_of hes.fresh,
      afterEntry, hgap.skip, ht'.skip]
    exact hrest

theorem value_bracket {c : Char} {r : List Char} (h : skip cs = c :: r) (hc : c ≠ ']')
    (fuel : Nat) :
    value (fuel + 1) ('[' :: cs) = (elements fuel (c :: r)).map fun p => (.list p.1, p.2) := by
  rw [value, h]
  split
  · rename_i heq
    exact absurd (List.cons.inj heq).1 hc
  · rfl

theorem value_brace {c : Char} {r : List Char} (h : skip cs = c :: r) (hc : c ≠ '\x7d')
    (fuel : Nat) :
    value (fuel + 1) ('\x7b' :: cs) = (members fuel [] (c :: r)).map fun p => (.dict p.1, p.2) := by
  rw [value, h]
  split
  · rename_i heq
    exact absurd (List.cons.inj heq).1 hc
  · rfl

theorem enclose_append (l : Layout) (depth : Nat) (opening closing : Char) (t rest : List Char)
    (ts : List (List Char)) : l.enclose depth opening closing (t :: ts) ++ rest
      = opening :: (l.gap (depth + 1)
        ++ (t ++ others (l.gap (depth + 1)) ts ++ l.gap depth ++ closing :: rest)) := by
  simp [Layout.enclose, others]

theorem length_enclose (l : Layout) (depth : Nat) (opening closing : Char) (t : List Char)
    (ts : List (List Char)) : (t ++ others (l.gap (depth + 1)) ts ++ l.gap depth).length + 2
      ≤ (l.enclose depth opening closing (t :: ts)).length := by
  have henclose := congrArg List.length (enclose_append l depth opening closing t [] ts)
  simp only [List.append_nil, List.length_append, List.length_cons, List.length_nil] at henclose ⊢
  omega

theorem readsAs_list (l : Layout) (depth : Nat) (hts : List.Forall₂ ReadsAs ts vs) :
    ReadsAs (l.enclose depth '[' ']' ts) (.list vs) := by
  cases hts with
  | nil => exact
      { front := ⟨_, _, rfl, by decide⟩
        value := fun fuel rest hfuel _ => by
          obtain ⟨fuel, rfl⟩ := Nat.exists_eq_add_one_of_ne_zero (Nat.ne_zero_of_lt hfuel)
          rfl }
  | @cons t v ts vs ht hts => exact
      { front := ⟨_, _, rfl, by decide⟩
        value := fun fuel rest hfuel _ => by
          obtain ⟨fuel, rfl⟩ := Nat.exists_eq_add_one_of_ne_zero (Nat.ne_zero_of_lt hfuel)
          have hlength := length_enclose l depth '[' ']' t ts
          have hread := elements_readsAs fuel rest (isGap_gap l (depth + 1)) (isGap_gap l depth) ht
            hts (by omega)
          have hskip := ht.skip (others (l.gap (depth + 1)) ts ++ (l.gap depth ++ ']' :: rest))
          obtain ⟨c, r, rfl, hc⟩ := ht.front
          have hfronts : ∀ c ∈ fronts, c ≠ ']' := forall_of_all (by decide)
          simp only [List.cons_append, List.append_assoc] at hread hskip
          rw [enclose_append]
          simp only [List.cons_append, List.append_assoc]
          rw [value_bracket (((isGap_gap l _).skip _).trans hskip) (hfronts c hc), hread]
          rfl }

theorem readsAs_table {es : Table String Value} (l : Layout) (depth : Nat)
    (hes : Table.Distinct es) (hts : List.Forall₂ (EntryReadsAs l) ts es) :
    ReadsAs (l.enclose depth '\x7b' '\x7d' ts) (.ofTable es) := by
  cases hts with
  | nil => exact
      { front := ⟨_, _, rfl, by decide⟩
        value := fun fuel rest hfuel _ => by
          obtain ⟨fuel, rfl⟩ := Nat.exists_eq_add_one_of_ne_zero (Nat.ne_zero_of_lt hfuel)
          rfl }
  | @cons t e ts es ht hts => exact
      { front := ⟨_, _, rfl, by decide⟩
        value := fun fuel rest hfuel _ => by
          obtain ⟨fuel, rfl⟩ := Nat.exists_eq_add_one_of_ne_zero (Nat.ne_zero_of_lt hfuel)
          have hlength := length_enclose l depth '\x7b' '\x7d' t ts
          have hread := members_readsAs fuel [] rest (isGap_gap l (depth + 1)) (isGap_gap l depth)
            hes ht hts (by omega)
          have hskip := ht.skip (others (l.gap (depth + 1)) ts ++ (l.gap depth ++ '\x7d' :: rest))
          obtain ⟨t, rfl, -⟩ := ht
          simp only [quote, List.cons_append, List.append_assoc] at hread hskip
          rw [enclose_append]
          simp only [quote, List.cons_append, List.append_assoc]
          rw [value_brace (((isGap_gap l _).skip _).trans hskip) (by decide)]
          exact congrArg (Except.map _) hread }

end Values

section Documents

/-- A document that is written is read as itself with its keys sorted. -/
theorem readsAs_encode (hv : v.IsJson) (h : encode l depth v = .ok cs) : ReadsAs cs v.sorted := by
  induction hv generalizing depth cs with
  | scalar s hs =>
    refine ⟨front_scalar hs h, fun fuel rest hfuel hrest => ?_⟩
    obtain ⟨c, r, rfl, -⟩ := front_scalar hs h
    obtain ⟨fuel, rfl⟩ := Nat.exists_eq_add_one_of_ne_zero (Nat.ne_zero_of_lt hfuel)
    exact value_scalar hs h hrest
  | list vs hvs ih =>
    obtain ⟨ts, hts, rfl⟩ := encode_list_eq_ok.1 h
    have hvalues (v) (hv : v ∈ vs) (cs) : encode l (depth + 1) v = .ok cs → ReadsAs cs v.sorted :=
      ih v hv
    have hboth := (List.forall₂_and_left _ _).2 ⟨hvalues, hts⟩
    rw [Value.sorted_list]
    refine readsAs_list l depth ?_
    rw [List.forall₂_map_right_iff]
    exact (hboth.imp fun v t hvt => hvt.1 t hvt.2).flip
  | table t ht hvs ih =>
    obtain ⟨ts, hts, rfl⟩ := encode_of_eq_ok.1 h
    have hsort := List.mergeSort_perm t keyBefore
    have hentries (e) (he : e ∈ t.mergeSort keyBefore) (cs) :
        encode l (depth + 1) e.2 = .ok cs → ReadsAs cs e.2.sorted := ih e (hsort.mem_iff.1 he)
    have hboth := (List.forall₂_and_left _ _).2 ⟨hentries, hts⟩
    rw [Value.sorted_ofTable, ← mapValues_mergeSort]
    refine readsAs_table l depth ((ht.perm hsort.symm).mapValues _) ?_
    rw [Table.mapValues, List.forall₂_map_right_iff]
    refine (hboth.imp fun e cs hboth => ?_).flip
    obtain ⟨hread, t, hwritten, rfl⟩ := hboth
    exact ⟨t, rfl, hread t hwritten⟩

/-- Sorting a document does not change what it is written as. -/
theorem encode_sorted (l : Layout) (depth : Nat) (hv : v.IsJson) :
    encode l depth v.sorted = encode l depth v := by
  induction hv generalizing depth with
  | scalar s => rfl
  | list vs hvs ih =>
    rw [Value.sorted_list, encode, encode, encodeList_eq, encodeList_eq, List.mapM_map]
    exact congrArg (· >>= _) (mapM_congr fun v hv => ih v hv (depth + 1))
  | table t ht hvs ih =>
    have hsorted : ((Table.mapValues Value.sorted t).mergeSort keyBefore).mergeSort keyBefore
        = Table.mapValues Value.sorted (t.mergeSort keyBefore) := by
      rw [mapValues_mergeSort]
      exact List.mergeSort_of_pairwise
        ((pairwise_mergeSort_keyBefore _).imp keyBefore_iff.2)
    rw [Value.sorted_ofTable, Value.ofTable, Value.ofTable, ← Dict.of, ← Dict.of, encode_of,
      encode_of, hsorted, Table.mapValues, List.mapM_map]
    refine congrArg (· >>= _) (mapM_congr fun e he => ?_)
    exact congrArg (member l <| Prod.mk _ ·) (ih e (List.mem_mergeSort.1 he) (depth + 1))

variable {s : String} {w : Value}

theorem write_eq_ok : write l v = .ok s ↔ encode l 0 v = .ok s.toList := by
  rw [write]
  cases encode l 0 v with
  | error e => simp [Except.map]
  | ok cs =>
    simp only [Except.map, Except.ok.injEq]
    exact ⟨fun h => h ▸ String.toList_ofList.symm, fun h => h ▸ String.ofList_toList⟩

theorem read_write (hv : v.IsJson) (h : write l v = .ok s) : read s = .ok v.sorted := by
  have hread := readsAs_encode hv (write_eq_ok.1 h)
  have hvalue := hread.value _ [] (Nat.le_succ _) (by simp [Ends])
  have hskip := hread.skip []
  simp only [List.append_nil] at hvalue hskip
  obtain ⟨c, r, hcs, hc⟩ := hread.front
  have hfronts : ∀ c ∈ fronts, c ≠ '\uFEFF' := forall_of_all (by decide)
  have hdocument : document s.toList = .ok v.sorted := by
    rw [document]
    · rw [hskip, hvalue]
      rfl
    · intro r' heq
      rw [hcs] at heq
      exact hfronts c hc (List.cons.inj heq).1
  rw [read, hdocument]
  rfl

theorem write_of_reordered (hv : v.IsJson) (hw : w.IsJson) (h : Value.Reordered v w) :
    write l w = write l v := by
  rw [hv.reordered_iff hw] at h
  rw [write, write, ← encode_sorted l 0 hw, ← h, encode_sorted l 0 hv]

/-- What a portable document is written as, another one is exactly if it is the document
reordered. -/
theorem write_eq_iff_reordered (hv : Portable v) (hw : Portable w) (h : write l v = .ok s) :
    write l w = .ok s ↔ Value.Reordered v w := by
  have hv' := Value.IsJson.of_portable hv
  have hw' := Value.IsJson.of_portable hw
  constructor
  · intro h'
    rw [Value.reordered_iff hv hw]
    exact Except.ok.inj ((read_write hv' h).symm.trans (read_write hw' h'))
  · intro hreordered
    rw [write_of_reordered hv' hw' hreordered, h]

end Documents

end BuildPipeline.Json
