import BuildPipeline.Proofs.Yaml.WrittenScalars

/-!
The tokens of a document as it is written. A document whose one-line keys are short enough gives
exactly its tokens; with a key that is too long the text fails.
-/

namespace BuildPipeline.Yaml

open Lexer (opening around)

section Tokens

/-- A list behind a mark is a block of its own; behind a key it is not. -/
def listTokens (ts : List Token) : Place → List Token
  | .mark => .blockSequenceStart :: ts ++ [.blockEnd]
  | .key => ts

def keyToken (k : Scalar) : Token := scalarToken (isSimpleKey k) k

mutual

def nodeTokens (place : Place) : Value → List Token
  | .scalar s => [scalarToken false s]
  | .list [] => [.flowSequenceStart, .flowSequenceEnd]
  | .list (v :: vs) => listTokens (.blockEntry :: nodeTokens .mark v ++ itemTokens vs) place
  | .pair k v =>
    listTokens (.blockEntry :: nodeTokens .mark k ++ .blockEntry :: nodeTokens .mark v) place
  | .dict [] => [.flowMappingStart, .flowMappingEnd]
  | .dict ((k, v) :: es) =>
    .blockMappingStart :: (.key :: keyToken k :: .value :: nodeTokens (keyPlace k) v)
      ++ entryTokens es ++ [.blockEnd]
  | .set _ | .loop _ => [scalarToken false .null]

def itemTokens : List Value → List Token
  | [] => []
  | v :: vs => .blockEntry :: nodeTokens .mark v ++ itemTokens vs

def entryTokens : List (Scalar × Value) → List Token
  | [] => []
  | (k, v) :: es => .key :: keyToken k :: .value :: nodeTokens (keyPlace k) v ++ entryTokens es

end

/-- A key on one line that the lexer does not give up. -/
def ShortKey (k : Scalar) : Prop := isSimpleKey k → (writeScalar 0 true k).length ≤ 1024

mutual

/-- Every key that is written on one line is short enough to be read as one. -/
def ShortKeys : Value → Prop
  | .list vs => ShortKeysAll vs
  | .pair k v => ShortKeys k ∧ ShortKeys v
  | .dict es => ShortKeysEntries es
  | .scalar _ | .set _ | .loop _ => True

def ShortKeysAll : List Value → Prop
  | [] => True
  | v :: vs => ShortKeys v ∧ ShortKeysAll vs

def ShortKeysEntries : List (Scalar × Value) → Prop
  | [] => True
  | (k, v) :: es => (ShortKey k ∧ ShortKeys v) ∧ ShortKeysEntries es

end

instance (k : Scalar) : Decidable (ShortKey k) :=
  inferInstanceAs (Decidable (isSimpleKey k → (writeScalar 0 true k).length ≤ 1024))

mutual

instance decidableShortKeys : (v : Value) → Decidable (ShortKeys v)
  | .list vs => decidableShortKeysAll vs
  | .pair k v => @instDecidableAnd _ _ (decidableShortKeys k) (decidableShortKeys v)
  | .dict es => decidableShortKeysEntries es
  | .scalar _ | .set _ | .loop _ => .isTrue trivial

instance decidableShortKeysAll : (vs : List Value) → Decidable (ShortKeysAll vs)
  | [] => .isTrue trivial
  | v :: vs => @instDecidableAnd _ _ (decidableShortKeys v) (decidableShortKeysAll vs)

instance decidableShortKeysEntries :
    (es : List (Scalar × Value)) → Decidable (ShortKeysEntries es)
  | [] => .isTrue trivial
  | (_, v) :: es => @instDecidableAnd _ _
    (@instDecidableAnd _ _ inferInstance (decidableShortKeys v)) (decidableShortKeysEntries es)

end

end Tokens

section Lexing

variable {o : Option (List Token)} {k n m : Nat} {i : Int} {outer : List Int} {ts : List Token}
  {r : List Char} {v : Value} {vs : List Value} {es : List (Scalar × Value)}

def Place.allowsKey : Place → Bool
  | .mark => true
  | .key => false

/-- The columns at which a value begins behind a mark or a key of a collection. -/
def Place.Fits : Place → Nat → Nat → Prop
  | .mark, n, m => m = n + 1
  | .key, n, m => n < m

/-- A value is read as its tokens wherever it stands, if its keys are short enough. -/
def Lexes (v : Value) : Prop :=
  ∀ (place : Place) (o : Option (List Token)) (k n m : Nat) (outer : List Int) (ts : List Token)
    (r : List Char), LineStart r → k ≤ n → place.Fits n m →
    (ShortKeys v → At o true k r n outer (ts ++ nodeTokens place v)) → (¬ShortKeys v → o = none) →
    At o place.allowsKey m (node place n v ++ newline k ++ r) n outer ts

theorem Place.Fits.lt {place : Place} (h : place.Fits n m) : n < m := by
  cases place with
  | mark => cases h; exact Nat.lt_succ_self n
  | key => exact h

theorem lexes_scalar (s : Scalar) : Lexes (.scalar s) := by
  intro place o k n m outer ts r hr hk hm h _
  have hlt := hm.lt
  have hs := scans_scalar (n + 1) s
  change At o _ m (' ' :: writeScalar (n + 2) false s ++ '\n' :: spaces k ++ r) n outer ts
  rw [List.append_assoc, List.cons_append]
  refine .space (hs.solid _) (.value hs hr (by omega) (by omega) (h trivial))

theorem lexes_null (h : ∀ place n, node place n v = " null".toList)
    (ht : ∀ place, nodeTokens place v = [scalarToken false .null]) (hs : ShortKeys v) :
    Lexes v := by
  intro place o k n m outer ts r hr hk hm hgo _
  have hgo := hgo hs
  rw [ht place] at hgo
  rw [h]
  exact lexes_scalar .null place o k n m outer ts r hr hk hm (fun _ => hgo)
    fun hn => absurd trivial hn

theorem lexes_brackets {a b : Char} {ta tb : Token} (hb : Brackets a b ta tb)
    (h : ∀ place n, node place n v = [' ', a, b]) (ht : ∀ place, nodeTokens place v = [ta, tb])
    (hs : ShortKeys v) : Lexes v := by
  intro place o k n m outer ts r hr hk hm hgo _
  have hlt := hm.lt
  have hsolid : Solid (a :: b :: '\n' :: (spaces k ++ r)) := by
    cases hb <;> exact solid_cons (by decide)
  rw [h]
  refine .space hsolid (.brackets hb hr.solid (by omega) ?_)
  rw [← ht place]
  exact hgo hs

/-- Every value begins with a space or on a new line. -/
theorem node_head (place : Place) (n : Nat) (v : Value) :
    ∃ x r, node place n v = x :: r ∧ separates x := by
  cases v with
  | scalar s => exact ⟨' ', _, rfl, rfl⟩
  | list vs =>
    cases vs with
    | nil => exact ⟨' ', _, rfl, rfl⟩
    | cons v vs => cases place <;> exact ⟨_, _, rfl, rfl⟩
  | pair k v => cases place <;> exact ⟨_, _, rfl, rfl⟩
  | dict es =>
    cases es with
    | nil => exact ⟨' ', _, rfl, rfl⟩
    | cons e es => cases place <;> exact ⟨_, _, rfl, rfl⟩
  | set ks => exact ⟨' ', _, rfl, rfl⟩
  | loop => exact ⟨' ', _, rfl, rfl⟩

section Lines

/-- Lines at a column that are read as some tokens of a collection at that column. -/
structure LexesLines (opens : Token) (line : Nat → List Char) (toks : List Token) (short : Prop) :
    Prop where
  starts : ∀ n r, LineStart (line n ++ r)
  lexes : ∀ (o : Option (List Token)) (k n : Nat) (i : Int) (outer : List Int) (ts : List Token)
    (r : List Char), LineStart r → k ≤ n → i ≤ n →
    (short → At o true k r n (around i n outer) (ts ++ opening i n opens ++ toks)) →
    (¬short → o = none) → At o true n (line n ++ newline k ++ r) i outer ts

variable {opens : Token} {line line' : Nat → List Char} {toks toks' : List Token}
  {short short' : Prop}

theorem opening_self (t : Token) : opening n n t = [] := if_neg (by omega)

theorem around_self : around n n outer = outer := if_neg (by omega)

theorem LexesLines.append (h : LexesLines opens line toks short)
    (h' : LexesLines opens line' toks' short') :
    LexesLines opens (fun n => line n ++ newline n ++ line' n) (toks ++ toks')
      (short ∧ short') := by
  refine ⟨fun n r => ?_, fun o k n i outer ts r hr hk hi hgo hfail => ?_⟩
  · rw [List.append_assoc, List.append_assoc]
    exact h.starts n _
  · have hstart := h'.starts n (newline k ++ r)
    have hrest := h.lexes o n n i outer ts _ hstart (Nat.le_refl n) hi
      (fun hs => by
        rw [← List.append_assoc]
        refine h'.lexes o k n n _ _ r hr hk (Int.le_refl n) (fun hs' => ?_)
          fun hs' => hfail fun h => hs' h.2
        rw [opening_self, around_self, List.append_nil, List.append_assoc]
        exact hgo ⟨hs, hs'⟩) (fun hs => hfail fun h => hs h.1)
    simpa using hrest

theorem lexesLines_item (hv : Lexes v) : LexesLines .blockSequenceStart
    (fun n => '-' :: node .mark n v) (.blockEntry :: nodeTokens .mark v) (ShortKeys v) := by
  refine ⟨fun n r => ?_, fun o k n i outer ts r hr hk hi hgo hfail => ?_⟩
  · obtain ⟨x, w, hw, hx⟩ := node_head .mark n v
    have hdash : '-' ≠ x := by rintro rfl; exact absurd hx (by decide)
    rw [hw]
    exact ⟨solid_cons (by decide), by simp [hdash], by simp⟩
  · obtain ⟨x, w, hw, hx⟩ := node_head .mark n v
    have hvalue := hv .mark o k n (n + 1) (around i n outer)
      (ts ++ opening i n .blockSequenceStart ++ [.blockEntry]) r hr hk rfl
      (fun hs => by rw [List.append_assoc _ [Token.blockEntry]]; exact hgo hs) hfail
    rw [hw] at hvalue ⊢
    exact .dash hx hi hvalue

theorem lexesLines_items (vs : List Value) (h : ∀ w ∈ v :: vs, Lexes w) :
    LexesLines .blockSequenceStart (fun n => joinLines n (items n (v :: vs)))
      (itemTokens (v :: vs)) (ShortKeysAll (v :: vs)) := by
  induction vs generalizing v with
  | nil =>
    have hv := lexesLines_item (h v List.mem_cons_self)
    simpa [items, joinLines, itemTokens, ShortKeysAll] using hv
  | cons w vs ih =>
    have hv := lexesLines_item (h v List.mem_cons_self)
    have hrest := ih (v := w) fun u hu => h u (List.mem_cons_of_mem _ hu)
    simpa [items, joinLines, itemTokens, ShortKeysAll] using hv.append hrest

theorem lexesLines_key {k : Scalar} (hk : isSimpleKey k) (hv : Lexes v) :
    LexesLines .blockMappingStart (fun n => writeScalar n true k ++ ':' :: node .key n v)
      (.key :: keyToken k :: .value :: nodeTokens (keyPlace k) v) (ShortKey k ∧ ShortKeys v) := by
  refine ⟨fun n r => ?_, fun o j n i outer ts r hr hj hi hgo hfail => ?_⟩
  · rw [List.append_assoc, List.cons_append]
    exact lineStart_key hk n
  · obtain ⟨x, w, hw, hx⟩ := node_head .key n v
    have hplace : keyPlace k = .key := if_pos hk
    have htoken : keyToken k = scalarToken true k := by rw [keyToken, hk]
    have hlen : writeScalar n true k = writeScalar 0 true k := writeScalar_key hk n 0
    rw [hplace, htoken] at hgo
    have hvalue (hl : (writeScalar n true k).length ≤ 1024) :=
      hv .key o j n (n + (writeScalar n true k).length + 1) (around i n outer)
      (ts ++ opening i n .blockMappingStart ++ [.key, scalarToken true k, .value]) r hr hj
      (by simp only [Place.Fits]; omega)
      (fun hs => by
        rw [List.append_assoc _ [Token.key, _, _]]
        exact hgo ⟨fun _ => hlen ▸ hl, hs⟩) fun hs => hfail fun h => hs h.2
    rw [hw] at hvalue
    rw [hw, List.append_assoc, List.append_assoc, List.cons_append]
    refine .key (scans_key hk n) (takesColumn_key hk n) hx hi (fun hl => ?_) fun hl => ?_
    · simpa [Place.allowsKey, scalarToken] using hvalue hl
    · refine hfail fun h => ?_
      have := h.1 hk
      rw [hlen] at hl
      omega

theorem lexesLines_longKey {k : Scalar} (hk : ¬isSimpleKey k) (hv : Lexes v) :
    LexesLines .blockMappingStart
      (fun n => '?' :: ' ' :: writeScalar (n + 2) false k ++ newline n ++ ':' :: node .mark n v)
      (.key :: keyToken k :: .value :: nodeTokens (keyPlace k) v) (ShortKey k ∧ ShortKeys v) := by
  refine ⟨fun n r => ?_, fun o j n i outer ts r hr hj hi hgo hfail => ?_⟩
  · exact lineStart_cons (by decide) (by decide) (by decide)
  · obtain ⟨x, w, hw, hx⟩ := node_head .mark n v
    have hplace : keyPlace k = .mark := if_neg hk
    have htoken : keyToken k = scalarToken false k := by
      rw [keyToken, Bool.eq_false_iff.2 hk]
    have hs := scans_scalar (n + 1) k
    rw [hplace, htoken] at hgo
    have hvalue := hv .mark o j n (n + 1) (around i n outer) (ts ++ opening i n .blockMappingStart
        ++ [.key] ++ [scalarToken false k] ++ [.value]) r hr hj rfl
      (fun hs => by simpa using hgo ⟨fun h => absurd h hk, hs⟩) fun hs => hfail fun h => hs h.2
    rw [hw] at hvalue
    have hcolon : At o true n (':' :: (x :: w ++ newline j ++ r)) n (around i n outer)
        (ts ++ opening i n .blockMappingStart ++ [.key] ++ [scalarToken false k]) := by
      refine .colon hx (Int.le_refl n) ?_
      rw [opening_self, around_self, List.append_nil]
      exact hvalue
    have hstart : LineStart (':' :: (x :: w ++ newline j ++ r)) :=
      lineStart_cons (by decide) (by decide) (by decide)
    have htext : '?' :: ' ' :: writeScalar (n + 2) false k ++ newline n ++ ':' :: node .mark n v
        ++ newline j ++ r = '?' :: ' ' :: (writeScalar (n + 2) false k
          ++ '\n' :: (spaces n ++ ':' :: (x :: w ++ newline j ++ r))) := by
      rw [hw]
      simp [newline]
    rw [htext]
    exact .question (by decide) hi (.space (hs.solid _)
      (.value hs hstart (Int.le_refl n) (by omega) hcolon))

theorem lexesLines_entry {k : Scalar} (hv : Lexes v) : LexesLines .blockMappingStart
    (fun n => joinLines n (entries n [(k, v)]))
    (.key :: keyToken k :: .value :: nodeTokens (keyPlace k) v) (ShortKey k ∧ ShortKeys v) := by
  by_cases hk : isSimpleKey k
  · simpa [entries, joinLines, hk] using lexesLines_key hk hv
  · simpa [entries, joinLines, hk] using lexesLines_longKey hk hv

theorem lexesLines_entries {e : Scalar × Value} (es : List (Scalar × Value))
    (h : ∀ f ∈ e :: es, Lexes f.2) :
    LexesLines .blockMappingStart (fun n => joinLines n (entries n (e :: es)))
      (entryTokens (e :: es)) (ShortKeysEntries (e :: es)) := by
  induction es generalizing e with
  | nil =>
    have hv := lexesLines_entry (k := e.1) (h e List.mem_cons_self)
    simpa [entryTokens, ShortKeysEntries] using hv
  | cons f es ih =>
    have hv := lexesLines_entry (k := e.1) (h e List.mem_cons_self)
    have hrest := ih (e := f) fun u hu => h u (List.mem_cons_of_mem _ hu)
    simpa [entries, joinLines, entryTokens, ShortKeysEntries] using hv.append hrest

/-- A collection set in by one level, from its first line to the line that closes it. -/
theorem LexesLines.block (h : LexesLines opens line toks short) (hr : LineStart r) (hk : k ≤ n)
    (hgo : short → At o true k r n outer (ts ++ (opens :: toks ++ [.blockEnd])))
    (hfail : ¬short → o = none) :
    At o true (n + 2) (line (n + 2) ++ newline k ++ r) n outer ts := by
  have hlt : (n : Int) < (n + 2 : Nat) := by omega
  refine h.lexes o k (n + 2) n outer ts r hr (by omega) (by omega) (fun hs => ?_) hfail
  rw [opening, around, if_pos hlt, if_pos hlt]
  refine .close hr.solid (by omega) ?_
  simpa using hgo hs

theorem lexes_list (h : LexesLines .blockSequenceStart line toks short)
    (hnode : ∀ place n, node place n v = listLines n place fun i => [line i])
    (htoks : ∀ place, nodeTokens place v = listTokens toks place) (hshort : ShortKeys v ↔ short) :
    Lexes v := by
  intro place o k n m outer ts r hr hk hm hgo hfail
  rw [hnode]
  simp only [htoks, hshort] at hgo hfail
  cases place with
  | mark =>
    obtain rfl : m = n + 1 := hm
    have hstart := h.starts (n + 2) (newline k ++ r)
    have hblock := h.block hr hk hgo hfail
    rw [List.append_assoc] at hblock
    rw [listLines, joinLines, List.append_assoc]
    exact .space hstart.solid hblock
  | key =>
    have hstart := h.starts n (newline k ++ r)
    have hlines := h.lexes o k n n outer ts r hr hk (Int.le_refl n) (fun hs => by
      rw [opening_self, around_self, List.append_nil]; exact hgo hs) hfail
    rw [List.append_assoc] at hlines
    rw [listLines, joinLines, List.append_assoc, List.append_assoc]
    exact .newline hstart.solid hlines

theorem lexes_dict (h : LexesLines .blockMappingStart line toks short)
    (hnode : ∀ place n, node place n v = dictLines n place fun i => [line i])
    (htoks : ∀ place, nodeTokens place v = .blockMappingStart :: toks ++ [.blockEnd])
    (hshort : ShortKeys v ↔ short) : Lexes v := by
  intro place o k n m outer ts r hr hk hm hgo hfail
  rw [hnode]
  simp only [htoks, hshort] at hgo hfail
  have hstart := h.starts (n + 2) (newline k ++ r)
  have hblock := h.block hr hk hgo hfail
  rw [List.append_assoc] at hblock
  cases place with
  | mark =>
    obtain rfl : m = n + 1 := hm
    rw [dictLines, joinLines, List.append_assoc]
    exact .space hstart.solid hblock
  | key =>
    rw [dictLines, joinLines, List.append_assoc, List.append_assoc]
    exact .newline hstart.solid hblock

end Lines

mutual

theorem lexes : ∀ v, Lexes v
  | .scalar s => lexes_scalar s
  | .list [] => lexes_brackets .list (fun _ _ => rfl) (fun _ => rfl) trivial
  | .list (v :: vs) =>
    lexes_list (lexesLines_items vs (lexes_items (v :: vs))) (fun place _ => by cases place <;> rfl)
      (fun _ => rfl) Iff.rfl
  | .pair k v =>
    lexes_list ((lexesLines_item (lexes k)).append (lexesLines_item (lexes v)))
      (fun place _ => by cases place <;> rfl) (fun _ => rfl) Iff.rfl
  | .dict [] => lexes_brackets .dict (fun _ _ => rfl) (fun _ => rfl) trivial
  | .dict ((k, v) :: es) =>
    lexes_dict (lexesLines_entries es (lexes_entries ((k, v) :: es)))
      (fun place _ => by cases place <;> rfl) (fun _ => rfl) Iff.rfl
  | .set _ => lexes_null (fun _ _ => rfl) (fun _ => rfl) trivial
  | .loop _ => lexes_null (fun _ _ => rfl) (fun _ => rfl) trivial

theorem lexes_items : ∀ vs : List Value, ∀ v ∈ vs, Lexes v
  | [], _, h => absurd h List.not_mem_nil
  | v :: vs, w, h => (List.mem_cons.1 h).elim (fun hw => hw ▸ lexes v) (lexes_items vs w)

theorem lexes_entries : ∀ es : List (Scalar × Value), ∀ e ∈ es, Lexes e.2
  | [], _, h => absurd h List.not_mem_nil
  | (_, v) :: es, f, h =>
    (List.mem_cons.1 h).elim (fun hf => hf ▸ lexes v) (lexes_entries es f)

end

def documentTokens (d : Dict) : List Token :=
  .streamStart :: .blockMappingStart :: entryTokens d ++ [.blockEnd, .streamEnd]

theorem lineStart_nil : LineStart [] := ⟨by rintro x ⟨⟩, by simp, by simp⟩

theorem yields_write {d : Dict} (hd : d ≠ [])
    (hgo : ShortKeysEntries d → o = some (documentTokens d))
    (hfail : ¬ShortKeysEntries d → o = none) :
    Outcome o (.ofText (write d).toList) := by
  obtain ⟨e, es, rfl⟩ := List.exists_cons_of_ne_nil hd
  have hlines := lexesLines_entries es (lexes_entries (e :: es))
  have htext : (write (e :: es)).toList = joinLines 0 (entries 0 (e :: es)) ++ newline 0 ++ [] := by
    rw [write, String.toList_ofList, List.append_nil]
    rfl
  have hat : At o true 0 (write (e :: es)).toList (-1) [] [.streamStart] := by
    rw [htext]
    refine hlines.lexes o 0 0 (-1) [] _ [] lineStart_nil (Nat.le_refl 0) (by decide) (fun hs => ?_)
      hfail
    have hdone : documentTokens (e :: es) = [Token.streamStart]
        ++ opening (-1) 0 .blockMappingStart ++ entryTokens (e :: es)
        ++ [.blockEnd, .streamEnd] := rfl
    rw [hgo hs, hdone]
    exact .finish
  have hts : Token.streamEnd ∉ [Token.streamStart] := by decide
  exact hat (.start (write (e :: es)).toList) rfl rfl hts _ (Nat.le_refl _)

theorem ofText_write {d : Dict} (hd : d ≠ []) (hs : ShortKeysEntries d) :
    Tokens.ofText (write d).toList = ⟨documentTokens d, none⟩ :=
  yields_write (o := some (documentTokens d)) hd (fun _ => rfl) fun h => absurd hs h

/-- A document with a key that is too long fails before the end of its text. -/
theorem ofText_write_fails {d : Dict} (hd : d ≠ []) (hs : ¬ShortKeysEntries d) :
    (Tokens.ofText (write d).toList).failure.isSome
      ∧ .streamEnd ∉ (Tokens.ofText (write d).toList).list :=
  yields_write (o := none) hd (fun h => absurd h hs) fun _ => rfl

end Lexing

end BuildPipeline.Yaml
