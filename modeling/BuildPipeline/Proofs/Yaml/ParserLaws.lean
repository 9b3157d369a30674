import BuildPipeline.Yaml.Node.Reader

/-! Laws of the parser: what its steps do with the next token. -/

namespace BuildPipeline.Yaml

namespace Parse

variable {α β : Type} {s s' : Parsing} {t t' : Token} {ts r : List Token} {text : List Char}
  {plain block indentless : Bool} {fuel : Nat}

def withTokens (s : Parsing) (ts : List Token) : Parsing := { s with tokens := ts }

theorem bind_run {m : Parse α} {f : α → Parse β} {a : α} (h : m s = .ok (a, s')) :
    (m >>= f) s = f a s' := by
  change (m s >>= fun p => f p.1 p.2) = _
  rw [h]
  rfl

theorem front_run (h : s.tokens = t :: r) : front s = .ok (t, s) := by
  obtain ⟨_, _, _, _⟩ := s
  cases h
  rfl

theorem drop_run (h : s.tokens = t :: r) : drop s = .ok ((), withTokens s r) := by
  obtain ⟨_, _, _, _⟩ := s
  cases h
  rfl

theorem sees_run (h : s.tokens = t :: r) (ts : List Token) :
    sees ts s = .ok (ts.contains t, s) := by
  rw [sees, bind_run (front_run h)]
  rfl

theorem accept_run (h : s.tokens = t :: r) : accept t s = .ok (true, withTokens s r) := by
  rw [accept, bind_run (front_run h), if_pos (beq_self_eq_true t), bind_run (drop_run h)]
  rfl

theorem accept_run_ne (h : s.tokens = t :: r) (ht : t ≠ t') : accept t' s = .ok (false, s) := by
  rw [accept, bind_run (front_run h), if_neg (by simpa using ht)]
  rfl

theorem expect_run (h : s.tokens = t :: r) : expect t s = .ok ((), withTokens s r) := by
  rw [expect, bind_run (accept_run h)]
  rfl

section Nodes

/-- A token that says neither an anchor nor a tag nor an alias. -/
def isContent : Token → Bool
  | .alias _ | .anchor _ | .tag _ _ => false
  | _ => true

theorem properties_run (h : s.tokens = t :: r) (ht : isContent t) :
    properties s = .ok (⟨none, none⟩, s) := by
  have hanchor : takeAnchor s = .ok (none, s) := by
    rw [takeAnchor, bind_run (front_run h)]
    cases t <;> first | rfl | cases ht
  have htag : takeTag s = .ok (none, s) := by
    rw [takeTag, bind_run (front_run h)]
    cases t <;> first | rfl | cases ht
  rw [properties, bind_run hanchor]
  change (takeTag >>= _) s = _
  rw [bind_run htag]
  rfl

theorem collection_run {tag : Tag} {isMap : Bool} {content : Tag → Parse Node} {n : Node}
    (h : content tag s = .ok (n, s')) :
    collection ⟨none, none⟩ tag isMap content s = .ok (n, s') := by
  have hcheck (s : Parsing) : checkAnchor ⟨none, none⟩ s = .ok ((), s) := rfl
  have hset (n : Node) (s : Parsing) : setAnchor ⟨none, none⟩ n s = .ok ((), s) := rfl
  rw [collection, bind_run (hcheck s), bind_run (hset _ s)]
  change (content tag >>= _) s = _
  rw [bind_run h, bind_run (hset n s')]
  rfl

def plainTag (text : List Char) (plain : Bool) : Tag := if plain then .ofPlain text else .str

theorem node_scalar (h : s.tokens = .scalar text plain :: r) :
    node block indentless (fuel + 1) s
      = .ok (.scalar (plainTag text plain) text, withTokens s r) := by
  rw [node, bind_run (front_run h)]
  change (properties >>= _) s = _
  rw [bind_run (properties_run h rfl), bind_run (front_run h)]
  change (drop >>= _) s = _
  rw [bind_run (drop_run h)]
  cases plain <;> rfl

theorem node_flowList (h : s.tokens = .flowSequenceStart :: .flowSequenceEnd :: r) :
    node block indentless (fuel + 2) s = .ok (.seq .seq [], withTokens s r) := by
  have hitems : flowItems true (fuel + 1) (withTokens s (.flowSequenceEnd :: r))
      = .ok ([], withTokens s r) := by
    rw [flowItems, bind_run (accept_run rfl)]
    rfl
  rw [node, bind_run (front_run h)]
  change (properties >>= _) s = _
  rw [bind_run (properties_run h rfl), bind_run (front_run h)]
  refine collection_run ?_
  rw [bind_run (drop_run h)]
  rw [bind_run hitems]
  rfl

theorem node_flowDict (h : s.tokens = .flowMappingStart :: .flowMappingEnd :: r) :
    node block indentless (fuel + 2) s = .ok (.map .map [], withTokens s r) := by
  have hentries : flowEntries true (fuel + 1) (withTokens s (.flowMappingEnd :: r))
      = .ok ([], withTokens s r) := by
    rw [flowEntries, bind_run (accept_run rfl)]
    rfl
  rw [node, bind_run (front_run h)]
  change (properties >>= _) s = _
  rw [bind_run (properties_run h rfl), bind_run (front_run h)]
  refine collection_run ?_
  rw [bind_run (drop_run h)]
  rw [bind_run hentries]
  rfl

theorem node_blockList {ns : List Node} (h : s.tokens = .blockSequenceStart :: r)
    (hitems : blockItems fuel (withTokens s r) = .ok (ns, s')) :
    node true indentless (fuel + 1) s = .ok (.seq .seq ns, s') := by
  rw [node, bind_run (front_run h)]
  change (properties >>= _) s = _
  rw [bind_run (properties_run h rfl), bind_run (front_run h)]
  refine Eq.trans (congrFun (if_pos rfl) s) (collection_run ?_)
  rw [bind_run (drop_run h)]
  rw [bind_run hitems]
  rfl

theorem node_blockDict {es : List (Node × Node)} (h : s.tokens = .blockMappingStart :: r)
    (hentries : blockEntries fuel (withTokens s r) = .ok (es, s')) :
    node true indentless (fuel + 1) s = .ok (.map .map es, s') := by
  rw [node, bind_run (front_run h)]
  change (properties >>= _) s = _
  rw [bind_run (properties_run h rfl), bind_run (front_run h)]
  refine Eq.trans (congrFun (if_pos rfl) s) (collection_run ?_)
  rw [bind_run (drop_run h)]
  rw [bind_run hentries]
  rfl

theorem node_indentless {ns : List Node} (h : s.tokens = .blockEntry :: r)
    (hitems : indentlessItems fuel s = .ok (ns, s')) :
    node block true (fuel + 1) s = .ok (.seq .seq ns, s') := by
  rw [node, bind_run (front_run h)]
  change (properties >>= _) s = _
  rw [bind_run (properties_run h rfl), bind_run (front_run h)]
  refine Eq.trans (congrFun (if_pos rfl) s) (collection_run ?_)
  rw [bind_run hitems]
  rfl

theorem nodeUnless_run {stops : List Token} (h : s.tokens = t :: r) (ht : t ∉ stops) :
    nodeUnless stops block indentless (fuel + 1) s = node block indentless fuel s := by
  rw [nodeUnless, bind_run (sees_run h stops), if_neg (by simpa using ht)]

end Nodes

section Items

variable {n k v : Node} {ns : List Node} {es : List (Node × Node)} {u : Parsing}

theorem blockItems_nil (h : s.tokens = .blockEnd :: r) :
    blockItems (fuel + 1) s = .ok ([], withTokens s r) := by
  rw [blockItems, bind_run (accept_run_ne h (by decide))]
  change (expect .blockEnd >>= _) s = _
  rw [bind_run (expect_run h)]
  rfl

theorem blockItems_cons (h : s.tokens = .blockEntry :: r)
    (hn : nodeUnless [.blockEntry, .blockEnd] true false fuel (withTokens s r) = .ok (n, s'))
    (hns : blockItems fuel s' = .ok (ns, u)) : blockItems (fuel + 1) s = .ok (n :: ns, u) := by
  rw [blockItems, bind_run (accept_run h)]
  change (nodeUnless [.blockEntry, .blockEnd] true false fuel >>= _) (withTokens s r) = _
  rw [bind_run hn, bind_run hns]
  rfl

theorem indentlessItems_nil (h : s.tokens = t :: r) (ht : t ≠ .blockEntry) :
    indentlessItems (fuel + 1) s = .ok ([], s) := by
  rw [indentlessItems, bind_run (accept_run_ne h ht)]
  rfl

theorem indentlessItems_cons (h : s.tokens = .blockEntry :: r)
    (hn : nodeUnless [.blockEntry, .key, .value, .blockEnd] true false fuel (withTokens s r)
      = .ok (n, s'))
    (hns : indentlessItems fuel s' = .ok (ns, u)) :
    indentlessItems (fuel + 1) s = .ok (n :: ns, u) := by
  rw [indentlessItems, bind_run (accept_run h)]
  change (nodeUnless [.blockEntry, .key, .value, .blockEnd] true false fuel >>= _)
    (withTokens s r) = _
  rw [bind_run hn, bind_run hns]
  rfl

theorem blockEntries_nil (h : s.tokens = .blockEnd :: r) :
    blockEntries (fuel + 1) s = .ok ([], withTokens s r) := by
  rw [blockEntries, bind_run (accept_run_ne h (by decide))]
  change (expect .blockEnd >>= _) s = _
  rw [bind_run (expect_run h)]
  rfl

theorem blockEntries_cons (h : s.tokens = .key :: .scalar text plain :: .value :: t :: r)
    (ht : t ∉ [Token.key, .value, .blockEnd])
    (hv : node true true (fuel + 1) (withTokens s (t :: r)) = .ok (v, s'))
    (hes : blockEntries (fuel + 3) s' = .ok (es, u)) :
    blockEntries (fuel + 4) s = .ok ((.scalar (plainTag text plain) text, v) :: es, u) := by
  have hkey : nodeUnless [.key, .value, .blockEnd] true true (fuel + 3)
      (withTokens s (.scalar text plain :: .value :: t :: r))
      = .ok (.scalar (plainTag text plain) text, withTokens s (.value :: t :: r)) := by
    rw [nodeUnless_run rfl (by simp), node_scalar rfl]
    rfl
  have hvalue : blockValue (fuel + 3) (withTokens s (.value :: t :: r)) = .ok (v, s') := by
    rw [blockValue, bind_run (accept_run rfl)]
    change nodeUnless [.key, .value, .blockEnd] true true (fuel + 2) (withTokens s (t :: r)) = _
    rw [nodeUnless_run rfl ht, hv]
  rw [blockEntries, bind_run (accept_run h)]
  change (nodeUnless [.key, .value, .blockEnd] true true (fuel + 3) >>= _) (withTokens s _) = _
  rw [bind_run hkey, bind_run hvalue, bind_run hes]
  rfl

end Items

section Shrinking

variable {m : Parse α}

/-- A step that takes tokens from the front and puts none back. -/
def Shrinks (m : Parse α) : Prop := ∀ s a s', m s = .ok (a, s') → s'.tokens <:+ s.tokens

theorem shrinks_pure (a : α) : Shrinks (pure a : Parse α) := by
  rintro s _ _ ⟨⟩
  exact List.suffix_refl _

theorem shrinks_throw (e : ReadError) : Shrinks (throw e : Parse α) := by
  rintro s _ _ ⟨⟩

theorem shrinks_get : Shrinks (get : Parse Parsing) := by
  rintro s _ _ ⟨⟩
  exact List.suffix_refl _

theorem shrinks_modify {f : Parsing → Parsing} (h : ∀ s, (f s).tokens <:+ s.tokens) :
    Shrinks (modify f : Parse Unit) := by
  rintro s _ _ ⟨⟩
  exact h s

theorem Shrinks.bind {f : α → Parse β} (hm : Shrinks m) (hf : ∀ a, Shrinks (f a)) :
    Shrinks (m >>= f) := by
  intro s b u h
  change (m s >>= fun p => f p.1 p.2) = _ at h
  cases hrun : m s with
  | error e =>
    rw [hrun] at h
    cases h
  | ok p =>
    rw [hrun] at h
    exact (hf p.1 p.2 b u h).trans (hm s p.1 p.2 hrun)

theorem shrinks_ite {c : Prop} [Decidable c] {n : Parse α} (hm : Shrinks m) (hn : Shrinks n) :
    Shrinks (if c then m else n) := by
  split
  · exact hm
  · exact hn

theorem shrinks_front : Shrinks front := by
  refine shrinks_get.bind fun s => ?_
  split
  · exact shrinks_pure _
  · exact shrinks_throw _

theorem shrinks_drop : Shrinks drop := shrinks_modify fun s => List.drop_suffix 1 s.tokens

theorem shrinks_sees (ts : List Token) : Shrinks (sees ts) :=
  shrinks_front.bind fun _ => shrinks_pure _

theorem shrinks_accept (t : Token) : Shrinks (accept t) :=
  shrinks_front.bind fun _ =>
    shrinks_ite (shrinks_drop.bind fun _ => shrinks_pure _) (shrinks_pure _)

theorem shrinks_expect (t : Token) : Shrinks (expect t) :=
  (shrinks_accept t).bind fun _ => shrinks_ite (shrinks_pure _) (shrinks_throw _)

/-- What comes behind the mark between two elements, which the first one does not have. -/
theorem shrinks_comma {first : Bool} (hm : Shrinks m) :
    Shrinks (if first then m else expect .flowEntry >>= fun _ => m) :=
  shrinks_ite hm ((shrinks_expect _).bind fun _ => hm)

theorem shrinks_expand (t : Option (Option String × String)) : Shrinks (expand t) := by
  obtain _ | ⟨_ | handle, suffix⟩ := t
  · exact shrinks_pure _
  · exact shrinks_pure _
  · refine shrinks_get.bind fun s => ?_
    split
    · exact shrinks_pure _
    · exact shrinks_throw _

theorem shrinks_takeAnchor : Shrinks takeAnchor := by
  refine shrinks_front.bind fun t => ?_
  split
  · exact shrinks_drop.bind fun _ => shrinks_pure _
  · exact shrinks_pure _

theorem shrinks_takeTag : Shrinks takeTag := by
  refine shrinks_front.bind fun t => ?_
  split
  · exact shrinks_drop.bind fun _ => shrinks_pure _
  · exact shrinks_pure _

theorem shrinks_properties : Shrinks properties := by
  refine shrinks_takeAnchor.bind fun a => ?_
  cases a with
  | some a =>
    exact shrinks_takeTag.bind fun t => (shrinks_expand t).bind fun _ => shrinks_pure _
  | none =>
    refine shrinks_takeTag.bind fun t => ?_
    cases t with
    | none => exact shrinks_pure _
    | some t =>
      exact shrinks_takeAnchor.bind fun _ => (shrinks_expand _).bind fun _ => shrinks_pure _

theorem shrinks_checkAnchor (p : Properties) : Shrinks (checkAnchor p) := by
  rw [checkAnchor]
  split
  · exact shrinks_get.bind fun _ => shrinks_ite (shrinks_throw _) (shrinks_pure _)
  · exact shrinks_pure _

theorem shrinks_setAnchor (p : Properties) (n : Node) : Shrinks (setAnchor p n) := by
  rw [setAnchor]
  split
  · exact shrinks_modify fun s => List.suffix_refl _
  · exact shrinks_pure _

theorem shrinks_collection {p : Properties} {tag : Tag} {isMap : Bool} {content : Tag → Parse Node}
    (h : ∀ tag, Shrinks (content tag)) : Shrinks (collection p tag isMap content) :=
  (shrinks_checkAnchor p).bind fun _ => (shrinks_setAnchor p _).bind fun _ =>
    (h _).bind fun n => (shrinks_setAnchor p n).bind fun _ => shrinks_pure _

theorem shrinks_scalarNode (p : Properties) (text : List Char) (plain : Bool) :
    Shrinks (scalarNode p text plain) :=
  (shrinks_checkAnchor p).bind fun _ => (shrinks_setAnchor p _).bind fun _ => shrinks_pure _

theorem shrinks_bareOrError (p : Properties) : Shrinks (node.bareOrError p) :=
  shrinks_ite ((shrinks_checkAnchor p).bind fun _ => (shrinks_setAnchor p _).bind fun _ =>
    shrinks_pure _) (shrinks_throw _)

theorem shrinks_aliasNode (name : String) : Shrinks (aliasNode name) := by
  refine shrinks_drop.bind fun _ => shrinks_get.bind fun s => ?_
  split
  · exact shrinks_pure _
  · exact shrinks_throw _

/-- The steps of nodes at some fuel, none of which puts tokens back. -/
structure NodesShrink (fuel : Nat) : Prop where
  node : ∀ block indentless, Shrinks (node block indentless fuel)
  nodeUnless : ∀ stops block indentless, Shrinks (nodeUnless stops block indentless fuel)
  blockItems : Shrinks (blockItems fuel)
  indentlessItems : Shrinks (indentlessItems fuel)
  blockEntries : Shrinks (blockEntries fuel)
  blockValue : Shrinks (blockValue fuel)
  flowItems : ∀ first, Shrinks (flowItems first fuel)
  flowPair : Shrinks (flowPair fuel)
  flowValue : ∀ stops, Shrinks (flowValue stops fuel)
  flowEntries : ∀ first, Shrinks (flowEntries first fuel)

theorem NodesShrink.node_succ (h : NodesShrink fuel) (block indentless : Bool) :
    Shrinks (Parse.node block indentless (fuel + 1)) := by
  rw [Parse.node]
  refine shrinks_front.bind fun t => ?_
  split
  · exact shrinks_aliasNode _
  · refine shrinks_properties.bind fun p => shrinks_front.bind fun t => ?_
    split
    · refine shrinks_ite (shrinks_collection fun tag => ?_) (shrinks_bareOrError p)
      exact h.indentlessItems.bind fun _ => shrinks_pure _
    · exact shrinks_drop.bind fun _ => shrinks_scalarNode p _ _
    · refine shrinks_collection fun tag => shrinks_drop.bind fun _ => ?_
      exact (h.flowItems true).bind fun _ => shrinks_pure _
    · refine shrinks_collection fun tag => shrinks_drop.bind fun _ => ?_
      exact (h.flowEntries true).bind fun _ => shrinks_pure _
    · refine shrinks_ite (shrinks_collection fun tag => shrinks_drop.bind fun _ => ?_)
        (shrinks_bareOrError p)
      exact h.blockItems.bind fun _ => shrinks_pure _
    · refine shrinks_ite (shrinks_collection fun tag => shrinks_drop.bind fun _ => ?_)
        (shrinks_bareOrError p)
      exact h.blockEntries.bind fun _ => shrinks_pure _
    · exact shrinks_bareOrError p

theorem nodesShrink (fuel : Nat) : NodesShrink fuel := by
  induction fuel with
  | zero =>
    constructor <;> intros <;> exact shrinks_throw _
  | succ fuel ih =>
    refine ⟨ih.node_succ, fun stops block indentless => ?_, ?_, ?_, ?_, ?_, fun first => ?_, ?_,
      fun stops => ?_, fun first => ?_⟩
    · exact (shrinks_sees stops).bind fun _ => shrinks_ite (shrinks_pure _) (ih.node _ _)
    · exact (shrinks_accept _).bind fun _ => shrinks_ite
        ((ih.nodeUnless _ _ _).bind fun _ => ih.blockItems.bind fun _ => shrinks_pure _)
        ((shrinks_expect _).bind fun _ => shrinks_pure _)
    · exact (shrinks_accept _).bind fun _ => shrinks_ite
        ((ih.nodeUnless _ _ _).bind fun _ => ih.indentlessItems.bind fun _ => shrinks_pure _)
        (shrinks_pure _)
    · exact (shrinks_accept _).bind fun _ => shrinks_ite
        ((ih.nodeUnless _ _ _).bind fun _ => ih.blockValue.bind fun _ =>
          ih.blockEntries.bind fun _ => shrinks_pure _)
        ((shrinks_expect _).bind fun _ => shrinks_pure _)
    · exact (shrinks_accept _).bind fun _ => shrinks_ite (ih.nodeUnless _ _ _) (shrinks_pure _)
    · have hmore (n : Node) := (ih.flowItems false).bind fun ns => shrinks_pure (n :: ns)
      exact (shrinks_accept _).bind fun _ => shrinks_ite (shrinks_pure _) (shrinks_comma
        ((shrinks_accept _).bind fun _ => shrinks_ite (shrinks_pure _) ((shrinks_accept _).bind
          fun _ => shrinks_ite (ih.flowPair.bind hmore) ((ih.node _ _).bind hmore))))
    · exact (ih.nodeUnless _ _ _).bind fun _ => (ih.flowValue _).bind fun _ => shrinks_pure _
    · exact (shrinks_accept _).bind fun _ => shrinks_ite (ih.nodeUnless _ _ _)
        (shrinks_front.bind fun _ => shrinks_pure _)
    · have hmore (k v : Node) := (ih.flowEntries false).bind fun es => shrinks_pure ((k, v) :: es)
      exact (shrinks_accept _).bind fun _ => shrinks_ite (shrinks_pure _) (shrinks_comma
        ((shrinks_accept _).bind fun _ => shrinks_ite (shrinks_pure _) ((shrinks_accept _).bind
          fun _ => shrinks_ite
            ((ih.nodeUnless _ _ _).bind fun k => (ih.flowValue _).bind fun v => hmore k v)
            ((ih.node _ _).bind fun k => shrinks_front.bind fun _ => hmore k _))))

end Shrinking

section Documents

theorem dropDocumentEnds_run (h : s.tokens = t :: r) (ht : t ≠ .documentEnd) :
    dropDocumentEnds fuel s = .ok ((), s) := by
  cases fuel with
  | zero => rfl
  | succ fuel =>
    rw [dropDocumentEnds, bind_run (accept_run_ne h ht)]
    rfl

/-- A document without a head, from the start of its text to the end. -/
theorem document_run {n : Node} (h : s.tokens = .streamStart :: t :: r)
    (ht : isDirective t = false ∧ t ≠ .documentStart ∧ t ≠ .streamEnd)
    (hn : node true false fuel (withTokens s (t :: r)) = .ok (n, s'))
    (hs : s'.tokens = [.streamEnd]) : document fuel s = .ok (some n, s') := by
  obtain ⟨hdirective, hstart, hend⟩ := ht
  have hsome : (some <$> node true false fuel) (withTokens s (t :: r)) = .ok (some n, s') := by
    change (node true false fuel (withTokens s (t :: r)) >>= fun p => pure (some p.1, p.2)) = _
    rw [hn]
    rfl
  rw [document, bind_run (expect_run h), bind_run (front_run rfl)]
  rw [if_neg (by simp [hdirective, hstart]), if_neg (by simpa using hend), bind_run hsome]
  change (accept .documentEnd >>= _) s' = _
  rw [bind_run (accept_run_ne hs (by decide))]
  rw [bind_run (dropDocumentEnds_run hs (by decide))]
  rw [bind_run (sees_run hs _)]
  rfl

section Needs

variable {m : Parse α}

/-- A step that gets through only with a token. -/
def Needs (t : Token) (m : Parse α) : Prop := ∀ s a s', m s = .ok (a, s') → t ∈ s.tokens

theorem needs_throw (e : ReadError) : Needs t (throw e : Parse α) := by
  rintro s _ _ ⟨⟩

theorem Needs.bind {f : α → Parse β} (hm : Needs t m) : Needs t (m >>= f) := by
  intro s b u h
  change (m s >>= fun p => f p.1 p.2) = _ at h
  cases hrun : m s with
  | error e =>
    rw [hrun] at h
    cases h
  | ok p => exact hm s p.1 p.2 hrun

theorem Shrinks.needs_bind {f : α → Parse β} (hm : Shrinks m) (hf : ∀ a, Needs t (f a)) :
    Needs t (m >>= f) := by
  intro s b u h
  change (m s >>= fun p => f p.1 p.2) = _ at h
  cases hrun : m s with
  | error e =>
    rw [hrun] at h
    cases h
  | ok p =>
    rw [hrun] at h
    exact (hm s p.1 p.2 hrun).subset (hf p.1 p.2 b u h)

theorem Shrinks.needs_some {f : Option α → Parse β} (hm : Shrinks m)
    (hf : ∀ a, Needs t (f (some a))) : Needs t ((some <$> m) >>= f) := by
  have hmap : ((some <$> m) >>= f) = (m >>= fun a => f (some a)) := by
    rw [map_eq_pure_bind, bind_assoc]
    simp only [pure_bind]
  rw [hmap]
  exact hm.needs_bind hf

theorem needs_front {f : Token → Parse β} (hf : ∀ t', t' ≠ t → Needs t (f t')) :
    Needs t (front >>= f) := by
  intro s b u h
  cases hs : s.tokens with
  | nil =>
    have hfront : front s = .error s.failure := by
      obtain ⟨_, _, _, _⟩ := s
      cases hs
      rfl
    change (front s >>= fun p => f p.1 p.2) = _ at h
    rw [hfront] at h
    cases h
  | cons t' r =>
    rw [bind_run (front_run hs)] at h
    by_cases ht : t' = t
    · exact ht ▸ List.mem_cons_self
    · exact hs ▸ hf t' ht s b u h

theorem shrinks_directives (fuel : Nat) :
    ∀ versioned handles, Shrinks (directives fuel versioned handles) := by
  induction fuel with
  | zero => exact fun _ _ => shrinks_throw _
  | succ fuel ih =>
    intro versioned handles
    refine shrinks_front.bind fun t => ?_
    split
    · refine shrinks_drop.bind fun _ => ?_
      split
      · exact shrinks_ite ((shrinks_throw _).bind fun _ => ih _ _) (ih _ _)
      · exact shrinks_ite ((shrinks_throw _).bind fun _ => ih _ _) (ih _ _)
      · exact ih _ _
    · exact shrinks_pure _

theorem shrinks_documentHead (fuel : Nat) : Shrinks (documentHead fuel) :=
  (shrinks_directives fuel _ _).bind fun _ => (shrinks_expect _).bind fun _ =>
    shrinks_modify fun _ => List.suffix_refl _

theorem shrinks_dropDocumentEnds (fuel : Nat) : Shrinks (dropDocumentEnds fuel) := by
  induction fuel with
  | zero => exact shrinks_pure _
  | succ fuel ih => exact (shrinks_accept _).bind fun _ => shrinks_ite ih (shrinks_pure _)

theorem shrinks_documentContent (fuel : Nat) : Shrinks (documentContent fuel) :=
  shrinks_front.bind fun _ => shrinks_ite (shrinks_pure _) ((nodesShrink fuel).node _ _)

/-- Only a text that goes on to its end has a document. -/
theorem needs_document (fuel : Nat) : Needs .streamEnd (document fuel) := by
  refine (shrinks_expect _).needs_bind fun _ => needs_front fun t ht => ?_
  have hend (n : Node) : Needs .streamEnd (do
      let _ ← accept .documentEnd
      dropDocumentEnds fuel
      unless ← sees [.streamEnd] do
        documentHead fuel
        throw .anchors
      return some n) := by
    refine (shrinks_accept _).needs_bind fun _ => (shrinks_dropDocumentEnds fuel).needs_bind
      fun _ => ?_
    rw [sees, bind_assoc]
    refine needs_front fun t ht => ?_
    rw [pure_bind, if_neg (by simpa using ht)]
    exact (shrinks_documentHead fuel).needs_bind fun _ => (needs_throw _).bind
  split
  · exact (shrinks_documentHead fuel).needs_bind fun _ =>
      (shrinks_documentContent fuel).needs_some hend
  · rw [if_neg (by simpa using ht)]
    exact ((nodesShrink fuel).node true false).needs_some hend

end Needs

end Documents

end Parse

end BuildPipeline.Yaml
