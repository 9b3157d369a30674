import BuildPipeline.Json.Writer
import BuildPipeline.Proofs.DocumentLaws
import Mathlib.Data.Nat.Digits.Defs

/-! Laws of writing JSON.  Whether a document can be written, and what is wrong with it if it
cannot, depends on its parts one by one: a part that can be written does not show. -/

namespace BuildPipeline.Json

section Except

variable {ε α β : Type}

/-- Whether there is a value, whatever it is. -/
def verdict (r : Except ε α) : Except ε Unit := r.map fun _ => ()

theorem cases_of_verdict {r : Except ε α} {r' : Except ε β} (h : verdict r = verdict r') :
    (∃ a b, r = .ok a ∧ r' = .ok b) ∨ ∃ e, r = .error e ∧ r' = .error e := by
  cases r with
  | ok a => cases r' with
    | ok b => exact .inl ⟨a, b, rfl, rfl⟩
    | error e => cases h
  | error e => cases r' with
    | ok b => cases h
    | error e' =>
      cases h
      exact .inr ⟨e, rfl, rfl⟩

theorem verdict_bind_of (r : Except ε α) (f : α → β) :
    verdict (r >>= fun a => .ok (f a)) = verdict r := by
  cases r <;> rfl

theorem verdict_mapM (f : α → Except ε β) (as : List α) :
    verdict (as.mapM f) = forM as fun a => verdict (f a) := by
  induction as with
  | nil => rfl
  | cons a as ih =>
    rw [List.mapM_cons, List.forM_cons, ← ih]
    cases f a with
    | error e => rfl
    | ok b =>
      change verdict (as.mapM f >>= fun bs => .ok (b :: bs)) = verdict (as.mapM f)
      exact verdict_bind_of _ _

/-- What succeeds may be left out of a loop. -/
theorem forM_filter {f : α → Except ε Unit} {q : α → Bool} {as : List α}
    (h : ∀ a ∈ as, q a = false → f a = .ok ()) : forM (as.filter q) f = forM as f := by
  induction as with
  | nil => rfl
  | cons a as ih =>
    have hrest := ih fun b hb => h b (List.mem_cons_of_mem a hb)
    cases hq : q a with
    | true =>
      rw [List.filter_cons_of_pos hq, List.forM_cons, List.forM_cons, hrest]
    | false =>
      rw [List.filter_cons_of_neg (by simp [hq]), List.forM_cons, h a List.mem_cons_self hq, hrest]
      rfl

end Except

section Writing

variable {l : Layout} {depth : Nat}

theorem encodeList_eq (l : Layout) (depth : Nat) (vs : List Value) :
    encodeList l depth vs = vs.mapM (encode l depth) := by
  induction vs with
  | nil => rfl
  | cons v vs ih =>
    rw [encodeList, ih, List.mapM_cons]

theorem verdict_encode_list (l : Layout) (depth : Nat) (vs : List Value) :
    verdict (encode l depth (.list vs)) = forM vs fun v => verdict (encode l (depth + 1) v) := by
  rw [encode, encodeList_eq, ← verdict_mapM]
  exact verdict_bind_of _ _

theorem encodeEntries_eq (l : Layout) (depth : Nat) (es : List (Scalar × Value)) :
    encodeEntries l depth es = es.map fun e => (e.1, encode l depth e.2) := by
  induction es with
  | nil => rfl
  | cons e es ih => rw [encodeEntries, ih, List.map_cons]

/-- The order of entries under texts. -/
def keyBefore {α : Type} (a b : String × α) : Bool := !decide (b.1 < a.1)

theorem sortEntries_of {α : Type} (t : Table String α) :
    sortEntries (t.map fun e => (Scalar.str e.1, e.2))
      = .ok ((t.mergeSort keyBefore).map fun e => (Scalar.str e.1, e.2)) := by
  have hkeys : (t.map fun e => (Scalar.str e.1, e.2)).mapM
      (fun e => (textKey? e.1).map (·, e)) = some (t.map fun e => (e.1, Scalar.str e.1, e.2)) := by
    induction t with
    | nil => rfl
    | cons e t ih =>
      rw [List.map_cons, List.mapM_cons, ih]
      rfl
  have hsorted := List.map_mergeSort (l := t) (r := keyBefore)
    (s := fun a b : String × Scalar × α => !decide (b.1 < a.1))
    (f := fun e => (e.1, Scalar.str e.1, e.2)) fun _ _ _ _ => rfl
  rw [sortEntries, hkeys]
  dsimp only
  rw [← hsorted, List.map_map]
  rfl

theorem verdict_member (l : Layout) (k : String) (r : Except WriteError (List Char)) :
    verdict (member l (.str k, r)) = verdict r := by
  cases r <;> rfl

theorem encodeEntries_of (l : Layout) (depth : Nat) (t : Table String Value) :
    encodeEntries l depth (Dict.of t)
      = (t.mapValues (encode l depth)).map fun e => (Scalar.str e.1, e.2) := by
  rw [encodeEntries_eq, Dict.of, Table.mapValues, List.map_map, List.map_map]
  rfl

theorem mapValues_mergeSort {α β : Type} (f : α → β) (t : Table String α) :
    Table.mapValues f (t.mergeSort keyBefore) = (Table.mapValues f t).mergeSort keyBefore :=
  List.map_mergeSort fun _ _ _ _ => rfl

/-- A mapping under texts is written entry by entry, in the order of the texts. -/
theorem encode_of (l : Layout) (depth : Nat) (t : Table String Value) :
    encode l depth (.dict (Dict.of t)) = do
      let ts ← (t.mergeSort keyBefore).mapM fun e => member l (.str e.1, encode l (depth + 1) e.2)
      return l.enclose depth '\x7b' '\x7d' ts := by
  rw [encode, encodeEntries_of, sortEntries_of, ← mapValues_mergeSort]
  change List.mapM (member l) (List.map _ (List.map _ _)) >>= _ = _
  rw [List.map_map, List.mapM_map]
  rfl

theorem member_eq_ok {k : String} {r : Except WriteError (List Char)} {cs : List Char} :
    member l (.str k, r) = .ok cs ↔ ∃ t, r = .ok t ∧ quote k ++ l.colon ++ t = cs := by
  change (r >>= fun t => .ok (quote k ++ l.colon ++ t)) = .ok cs ↔ _
  rw [bind_eq_ok]
  exact exists_congr fun t => and_congr_right fun _ => ⟨Except.ok.inj, congrArg _⟩

theorem encode_list_eq_ok {vs : List Value} {cs : List Char} : encode l depth (.list vs) = .ok cs
    ↔ ∃ ts, List.Forall₂ (fun v t => encode l (depth + 1) v = .ok t) vs ts
      ∧ l.enclose depth '[' ']' ts = cs := by
  rw [encode, encodeList_eq, bind_eq_ok]
  exact exists_congr fun ts => and_congr mapM_eq_ok ⟨Except.ok.inj, congrArg _⟩

theorem encode_of_eq_ok {t : Table String Value} {cs : List Char} :
    encode l depth (.dict (Dict.of t)) = .ok cs ↔ ∃ ts, List.Forall₂
      (fun e cs => ∃ t, encode l (depth + 1) e.2 = .ok t ∧ quote e.1 ++ l.colon ++ t = cs)
      (t.mergeSort keyBefore) ts ∧ l.enclose depth '\x7b' '\x7d' ts = cs := by
  rw [encode_of, bind_eq_ok]
  refine exists_congr fun ts => and_congr (mapM_eq_ok.trans ?_) ⟨Except.ok.inj, congrArg _⟩
  simp only [member_eq_ok]

theorem verdict_encode_sorted (l : Layout) (depth : Nat) (t : Table String Value) :
    verdict (encode l depth (.dict (Dict.of t)))
      = forM (t.mergeSort keyBefore) fun e => verdict (encode l (depth + 1) e.2) := by
  rw [encode_of]
  change verdict (List.mapM _ _ >>= fun ts => .ok (l.enclose depth _ _ ts)) = _
  rw [verdict_bind_of, verdict_mapM]
  exact congrArg (forM _) (funext fun e => verdict_member l e.1 _)

theorem verdict_encode_of (l : Layout) (depth : Nat) (t : Table String Value) :
    verdict (encode l depth (.dict (Dict.of t))) = forM
      ((t.mapValues fun v => verdict (encode l (depth + 1) v)).mergeSort keyBefore) (·.2) := by
  rw [verdict_encode_sorted, ← mapValues_mergeSort, Table.mapValues, List.forM_map]

/-- A document that can be written at every depth. -/
def Writable (v : Value) : Prop := ∀ l depth, verdict (encode l depth v) = .ok ()

theorem writable_str (s : String) : Writable (.str s) := fun _ _ => rfl

theorem writable_float (x : Float) : Writable (.float x) := fun _ _ => rfl

theorem writable_int {n : Int} (h : n.natAbs < 10 ^ maxDigits) : Writable (.int n) := by
  intro l depth
  have hdigits : (toString n.natAbs).toList.length ≤ maxDigits := by
    rw [Nat.toString_eq_repr, Nat.toList_repr]
    exact Nat.toDigits_length 10 _ _ (by decide) h
  rw [encode, scalar, intText, if_neg (by omega)]
  rfl

theorem writable_of {t : Table String Value} (h : ∀ e ∈ t, Writable e.2) :
    Writable (.dict (Dict.of t)) := by
  intro l depth
  rw [verdict_encode_of]
  refine forM_eq_ok.2 fun e he => ?_
  obtain ⟨f, hf, rfl⟩ := List.mem_map.1 (List.mem_mergeSort.1 he)
  exact h f hf l (depth + 1)

end Writing

end BuildPipeline.Json
