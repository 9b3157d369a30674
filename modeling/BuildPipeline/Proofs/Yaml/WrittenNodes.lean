import BuildPipeline.Proofs.Yaml.ParserLaws
import BuildPipeline.Proofs.Yaml.WrittenTokens

/-! The node of a document as it is written. -/

namespace BuildPipeline.Yaml

open Parse (withTokens plainTag)

section Nodes

def scalarNode (simple : Bool) (s : Scalar) : Node :=
  .scalar (plainTag (scalarReading simple s) (scalarStyle simple s = .plain))
    (scalarReading simple s)

def keyNode (k : Scalar) : Node := scalarNode (isSimpleKey k) k

mutual

def writtenNode : Value → Node
  | .scalar s => scalarNode false s
  | .list vs => .seq .seq (writtenItems vs)
  | .pair k v => .seq .seq [writtenNode k, writtenNode v]
  | .dict es => .map .map (writtenEntries es)
  | .set _ | .loop _ => scalarNode false .null

def writtenItems : List Value → List Node
  | [] => []
  | v :: vs => writtenNode v :: writtenItems vs

def writtenEntries : List (Scalar × Value) → List (Node × Node)
  | [] => []
  | (k, v) :: es => (keyNode k, writtenNode v) :: writtenEntries es

end

end Nodes

section Parsing

variable {s : Parsing} {v : Value} {vs : List Value} {es : List (Scalar × Value)} {t : Token}
  {r : List Token} {fuel : Nat}

/-- A list behind a key has no token that closes it: what follows has to be no further element. -/
def Place.Closes : Place → List Token → Prop
  | .mark, _ => True
  | .key, r => ∃ t r', r = t :: r' ∧ t ≠ .blockEntry

def Place.Allows : Place → Bool → Prop
  | .mark, _ => True
  | .key, indentless => indentless

/-- The tokens of a value give its node wherever they stand. -/
def Parses (v : Value) : Prop :=
  ∀ (place : Place) (indentless : Bool) (fuel : Nat) (s : Parsing) (r : List Token),
    s.tokens = nodeTokens place v ++ r → place.Closes r → place.Allows indentless →
    3 * (nodeTokens place v).length ≤ fuel →
    Parse.node true indentless fuel s = .ok (writtenNode v, withTokens s r)

theorem nodeTokens_head (place : Place) (v : Value) :
    ∃ t r, nodeTokens place v = t :: r ∧ t ∉ [Token.key, .value, .blockEnd]
      ∧ (place = .mark → t ≠ .blockEntry) := by
  cases v with
  | scalar s => exact ⟨_, _, rfl, by simp [scalarToken], by simp [scalarToken]⟩
  | list vs =>
    cases vs with
    | nil => exact ⟨_, _, rfl, by simp, by simp⟩
    | cons v vs => cases place <;> exact ⟨_, _, rfl, by simp, by simp⟩
  | pair k v => cases place <;> exact ⟨_, _, rfl, by simp, by simp⟩
  | dict es =>
    cases es with
    | nil => exact ⟨_, _, rfl, by simp, by simp⟩
    | cons e es => exact ⟨_, _, rfl, by simp, by simp⟩
  | set ks => exact ⟨_, _, rfl, by simp [scalarToken], by simp [scalarToken]⟩
  | loop => exact ⟨_, _, rfl, by simp [scalarToken], by simp [scalarToken]⟩

/-- An element behind its mark, in front of whatever follows it. -/
theorem Parses.item {stops : List Token} (hv : Parses v) (s : Parsing) (r : List Token)
    (hstops : stops ⊆ [.blockEntry, .key, .value, .blockEnd])
    (hfuel : 3 * (nodeTokens .mark v).length ≤ fuel) :
    Parse.nodeUnless stops true false (fuel + 1) (withTokens s (nodeTokens .mark v ++ r))
      = .ok (writtenNode v, withTokens s r) := by
  obtain ⟨t, w, hw, ht, hentry⟩ := nodeTokens_head .mark v
  have hnot : t ∉ stops := fun hmem => by
    rcases List.mem_cons.1 (hstops hmem) with rfl | hmem
    · exact hentry rfl rfl
    · exact ht hmem
  have hs : (withTokens s (nodeTokens .mark v ++ r)).tokens = t :: (w ++ r) := by
    rw [hw]
    rfl
  rw [Parse.nodeUnless_run hs hnot]
  exact hv .mark false fuel _ r rfl trivial trivial hfuel

theorem parses_items (hvs : ∀ v ∈ vs, Parses v) (h : s.tokens = itemTokens vs ++ .blockEnd :: r)
    (hfuel : 3 * (itemTokens vs).length ≤ fuel) :
    Parse.blockItems (fuel + 1) s = .ok (writtenItems vs, withTokens s r) := by
  induction vs generalizing s fuel with
  | nil => exact Parse.blockItems_nil h
  | cons v vs ih =>
    have htokens : s.tokens
        = .blockEntry :: (nodeTokens .mark v ++ (itemTokens vs ++ .blockEnd :: r)) := by
      rw [h, itemTokens, List.append_assoc, List.cons_append]
    simp only [itemTokens, List.length_append, List.length_cons] at hfuel
    cases fuel with
    | zero => omega
    | succ fuel =>
      have hrest : Parse.blockItems (fuel + 1) (withTokens s (itemTokens vs ++ .blockEnd :: r))
          = .ok (writtenItems vs, withTokens s r) :=
        ih (fun w hw => hvs w (List.mem_cons_of_mem v hw)) rfl (by omega)
      exact Parse.blockItems_cons htokens
        ((hvs v List.mem_cons_self).item s _ (by simp) (by omega)) hrest

theorem parses_indentless (hvs : ∀ v ∈ vs, Parses v) (h : s.tokens = itemTokens vs ++ t :: r)
    (ht : t ≠ .blockEntry) (hfuel : 3 * (itemTokens vs).length ≤ fuel + 2) :
    Parse.indentlessItems (fuel + 1) s = .ok (writtenItems vs, withTokens s (t :: r)) := by
  induction vs generalizing s fuel with
  | nil =>
    have hs : withTokens s (t :: r) = s := by
      have htokens : t :: r = s.tokens := h.symm
      rw [htokens]
      rfl
    rw [hs]
    exact Parse.indentlessItems_nil h ht
  | cons v vs ih =>
    have htokens : s.tokens = .blockEntry :: (nodeTokens .mark v ++ (itemTokens vs ++ t :: r)) := by
      rw [h, itemTokens, List.append_assoc, List.cons_append]
    simp only [itemTokens, List.length_append, List.length_cons] at hfuel
    cases fuel with
    | zero => omega
    | succ fuel =>
      have hrest : Parse.indentlessItems (fuel + 1) (withTokens s (itemTokens vs ++ t :: r))
          = .ok (writtenItems vs, withTokens s (t :: r)) :=
        ih (fun w hw => hvs w (List.mem_cons_of_mem v hw)) rfl (by omega)
      exact Parse.indentlessItems_cons htokens
        ((hvs v List.mem_cons_self).item s _ (List.Subset.refl _) (by omega)) hrest

theorem entryTokens_closes (es : List (Scalar × Value)) (r : List Token) (place : Place) :
    place.Closes (entryTokens es ++ .blockEnd :: r) := by
  cases place with
  | mark => trivial
  | key =>
    cases es with
    | nil => exact ⟨_, _, rfl, by simp⟩
    | cons e es => exact ⟨_, _, rfl, by simp⟩

theorem parses_entries (hes : ∀ e ∈ es, Parses e.2)
    (h : s.tokens = entryTokens es ++ .blockEnd :: r)
    (hfuel : 3 * (entryTokens es).length ≤ fuel) :
    Parse.blockEntries (fuel + 1) s = .ok (writtenEntries es, withTokens s r) := by
  induction es generalizing s fuel with
  | nil => exact Parse.blockEntries_nil h
  | cons e es ih =>
    obtain ⟨k, v⟩ := e
    obtain ⟨t, w, hw, ht, -⟩ := nodeTokens_head (keyPlace k) v
    have htokens : s.tokens = .key :: keyToken k :: .value
        :: (nodeTokens (keyPlace k) v ++ (entryTokens es ++ .blockEnd :: r)) := by
      rw [h, entryTokens, List.append_assoc]
      rfl
    simp only [entryTokens, List.length_append, List.length_cons] at hfuel
    obtain ⟨n, rfl⟩ : ∃ n, fuel = n + 3 := ⟨fuel - 3, by omega⟩
    have hparses : Parses v := hes (k, v) List.mem_cons_self
    have hv : Parse.node true true (n + 1)
        (withTokens s (nodeTokens (keyPlace k) v ++ (entryTokens es ++ .blockEnd :: r)))
        = .ok (writtenNode v, withTokens s (entryTokens es ++ .blockEnd :: r)) :=
      hparses _ true _ _ _ rfl (entryTokens_closes es r _) (by cases keyPlace k <;> trivial)
        (by omega)
    have hrest : Parse.blockEntries (n + 3) (withTokens s (entryTokens es ++ .blockEnd :: r))
        = .ok (writtenEntries es, withTokens s r) :=
      ih (fun f hf => hes f (List.mem_cons_of_mem _ hf)) rfl (by omega)
    rw [hw] at htokens hv
    exact Parse.blockEntries_cons htokens ht hv hrest

/-- A list that has elements, behind a mark as a block and behind a key without one. -/
theorem parses_list (hvs : ∀ v ∈ vs, Parses v) (hne : vs ≠ [])
    (htoks : ∀ place, nodeTokens place v = listTokens (itemTokens vs) place)
    (hnode : writtenNode v = .seq .seq (writtenItems vs)) : Parses v := by
  intro place indentless fuel s r h hr hi hfuel
  obtain ⟨w, ws, rfl⟩ := List.exists_cons_of_ne_nil hne
  rw [htoks] at h hfuel
  rw [hnode]
  cases place with
  | mark =>
    simp only [listTokens, List.length_append, List.length_cons] at hfuel
    obtain ⟨n, rfl⟩ : ∃ n, fuel = n + 2 := ⟨fuel - 2, by omega⟩
    rw [listTokens, List.append_assoc] at h
    exact Parse.node_blockList h (parses_items hvs rfl (by omega))
  | key =>
    obtain ⟨t, r, rfl, ht⟩ := hr
    obtain rfl : indentless = true := hi
    simp only [listTokens] at hfuel h
    have hlen : 0 < (itemTokens (w :: ws)).length := by simp [itemTokens]
    obtain ⟨n, rfl⟩ : ∃ n, fuel = n + 2 := ⟨fuel - 2, by omega⟩
    exact Parse.node_indentless h (parses_indentless hvs h ht (by omega))

theorem parses_dict (hes : ∀ e ∈ es, Parses e.2) (hne : es ≠ []) : Parses (.dict es) := by
  intro place indentless fuel s r h _ _ hfuel
  obtain ⟨e, es, rfl⟩ := List.exists_cons_of_ne_nil hne
  have htoks : nodeTokens place (.dict (e :: es))
      = .blockMappingStart :: entryTokens (e :: es) ++ [.blockEnd] := by
    simp [nodeTokens, entryTokens]
  rw [htoks] at h hfuel
  simp only [List.length_append, List.length_cons] at hfuel
  obtain ⟨n, rfl⟩ : ∃ n, fuel = n + 2 := ⟨fuel - 2, by omega⟩
  rw [List.append_assoc] at h
  exact Parse.node_blockDict h (parses_entries hes rfl (by omega))

theorem parses_scalar {s : Scalar} (htoks : ∀ place, nodeTokens place v = [scalarToken false s])
    (hnode : writtenNode v = scalarNode false s) : Parses v := by
  intro place indentless fuel s r h _ _ hfuel
  rw [htoks] at h hfuel
  rw [hnode]
  cases fuel with
  | zero => cases hfuel
  | succ fuel => exact Parse.node_scalar h

theorem parses_brackets {a b : Token} (htoks : ∀ place, nodeTokens place v = [a, b])
    (h : ∀ indentless fuel s r, s.tokens = a :: b :: r →
      Parse.node true indentless (fuel + 2) s = .ok (writtenNode v, withTokens s r)) :
    Parses v := by
  intro place indentless fuel s r hs _ _ hfuel
  rw [htoks] at hs hfuel
  simp only [List.length_cons, List.length_nil] at hfuel
  obtain ⟨n, rfl⟩ : ∃ n, fuel = n + 2 := ⟨fuel - 2, by omega⟩
  exact h indentless n s r hs

mutual

theorem parses : ∀ v, Parses v
  | .scalar _ => parses_scalar (fun _ => rfl) rfl
  | .list [] => parses_brackets (fun _ => rfl) fun _ _ _ _ => Parse.node_flowList
  | .list (v :: vs) =>
    parses_list (parses_all (v :: vs)) (by simp) (fun _ => rfl) rfl
  | .pair k v =>
    have h : ∀ w ∈ [k, v], Parses w := by simp [parses k, parses v]
    parses_list h (by simp) (fun _ => by simp [nodeTokens, itemTokens]) rfl
  | .dict [] => parses_brackets (fun _ => rfl) fun _ _ _ _ => Parse.node_flowDict
  | .dict (e :: es) => parses_dict (parses_values (e :: es)) (by simp)
  | .set _ => parses_scalar (fun _ => rfl) rfl
  | .loop _ => parses_scalar (fun _ => rfl) rfl

theorem parses_all : ∀ vs : List Value, ∀ v ∈ vs, Parses v
  | [], _, h => absurd h List.not_mem_nil
  | v :: vs, w, h => (List.mem_cons.1 h).elim (fun hw => hw ▸ parses v) (parses_all vs w)

theorem parses_values : ∀ es : List (Scalar × Value), ∀ e ∈ es, Parses e.2
  | [], _, h => absurd h List.not_mem_nil
  | (_, v) :: es, f, h =>
    (List.mem_cons.1 h).elim (fun hf => hf ▸ parses v) (parses_values es f)

end

theorem read?_write {d : Dict} (hd : d ≠ []) (hs : ShortKeysEntries d) :
    Node.read? (write d).toList = .ok (some (writtenNode (.dict d))) := by
  have htoks : nodeTokens .mark (.dict d) = .blockMappingStart :: entryTokens d ++ [.blockEnd] := by
    obtain ⟨e, es, rfl⟩ := List.exists_cons_of_ne_nil hd
    simp [nodeTokens, entryTokens]
  have hsplit : .blockMappingStart :: (entryTokens d ++ [.blockEnd, .streamEnd])
      = nodeTokens .mark (.dict d) ++ [.streamEnd] := by
    rw [htoks]
    simp
  have hlen : 3 * (nodeTokens .mark (.dict d)).length ≤ 3 * (documentTokens d).length + 8 := by
    rw [htoks, documentTokens]
    simp only [List.length_append, List.length_cons]
    omega
  have hrun (s : Parsing) := Parse.document_run (s := withTokens s (documentTokens d)) rfl
    (by simp [Parse.isDirective]) (parses _ .mark false _ _ _ hsplit trivial trivial hlen) rfl
  rw [Node.read?, ofText_write hd hs]
  exact congrArg (fun o => (·.1) <$> o) (hrun ⟨[], .tokens, Parse.defaultHandles, []⟩)

/-- A document with a key that is too long has no node. -/
theorem read?_write_fails {d : Dict} (hd : d ≠ []) (hs : ¬ShortKeysEntries d) (n : Option Node) :
    Node.read? (write d).toList ≠ .ok n := by
  intro h
  have hend := (ofText_write_fails hd hs).2
  change (·.1) <$> Parse.document (3 * (Tokens.ofText (write d).toList).list.length + 8)
    ⟨(Tokens.ofText (write d).toList).list, _, _, _⟩ = _ at h
  generalize Tokens.ofText (write d).toList = ts at h hend
  cases hrun : Parse.document (3 * ts.list.length + 8)
      ⟨ts.list, ts.failure.getD .tokens, Parse.defaultHandles, []⟩ with
  | error e =>
    rw [hrun] at h
    cases h
  | ok p => exact hend (Parse.needs_document _ _ p.1 p.2 hrun)

end Parsing

end BuildPipeline.Yaml
