import BuildPipeline.Config.Settings
import BuildPipeline.Proofs.NormalForms
import BuildPipeline.Proofs.PlanLaws

/-!
Which configurations have settings. A configuration is refused for a section that is no mapping,
for a known key outside its domain and for delays that cross, and for nothing else. What is not
known has no part in the answer.
-/

namespace BuildPipeline

open Text (isBlank isBlankText)

section Blanks

theorem isBlankText_eq_false {s : String} {c : Char} (hc : c ∈ s.toList)
    (h : isBlank c = false) : isBlankText s = false := by
  rw [isBlankText, List.all_eq_false]
  exact ⟨c, hc, by simp [h]⟩

theorem isBlank_of_isDecimalDigit {c : Char} (h : Text.isDecimalDigit c) : isBlank c = false := by
  have hglyphs : ∀ c ∈ Yaml.decimalGlyphs, isBlank c = false := Yaml.forall_of_all (by decide)
  exact hglyphs c (Yaml.mem_decimalGlyphs h)

theorem isBlankText_int (n : Int) : isBlankText (toString n) = false := by
  obtain ⟨hdigits, c, r, hfront, -⟩ := Yaml.numeral_toDigits n.natAbs
  have hc : c ∈ Nat.toDigits 10 n.natAbs := hfront ▸ List.mem_cons_self
  refine isBlankText_eq_false (c := c) ?_ (isBlank_of_isDecimalDigit (hdigits c hc))
  rw [Yaml.toList_toString_int]
  exact List.mem_append_right _ hc

/-- A float shows a point or an exponent. -/
theorem mem_layout (d : Number.Decimal) : '.' ∈ Number.layout d ∨ 'e' ∈ Number.layout d := by
  rw [Number.layout]
  split
  · left
    rw [Number.positional]
    split_ifs <;> simp
  · right
    simp [Number.scientific]

theorem isBlankText_display (x : Float) : isBlankText (Number.display x) = false := by
  rw [Number.display]
  split
  · decide
  · split <;> decide
  · rename_i negative m q _
    have hdigits : ∃ c ∈ (if m = 0 then ['0', '.', '0'] else Number.layout (Number.shortest m q)),
        isBlank c = false := by
      split
      · exact ⟨'0', by simp, by decide⟩
      · rcases mem_layout (Number.shortest m q) with h | h
        · exact ⟨_, h, by decide⟩
        · exact ⟨_, h, by decide⟩
    obtain ⟨c, hc, hblank⟩ := hdigits
    refine isBlankText_eq_false (c := c) ?_ hblank
    cases negative <;> simp [hc]

end Blanks

namespace Settings

/-- The keys that settings are read from. -/
inductive Key
  | strictValidation
  | ordering
  | projectPrefix
  | runtimeVersion
  | packageManager
  | maxAttempts
  | baseDelayMs
  | maxDelayMs
  | exponentialBackoff
  deriving DecidableEq

namespace Key

/-- The section of a key. -/
def part : Key → String
  | .strictValidation | .ordering => "engine"
  | .projectPrefix | .runtimeVersion | .packageManager => "build"
  | .maxAttempts | .baseDelayMs | .maxDelayMs | .exponentialBackoff => "retry"

def name : Key → String
  | .strictValidation => "strict_validation"
  | .ordering => "ordering"
  | .projectPrefix => "project_prefix"
  | .runtimeVersion => "runtime_version"
  | .packageManager => "package_manager"
  | .maxAttempts => "max_attempts"
  | .baseDelayMs => "base_delay_ms"
  | .maxDelayMs => "max_delay_ms"
  | .exponentialBackoff => "exponential_backoff"

end Key

def IsFlag (v : Value) : Prop := ∃ b, v = .bool b

def IsOrdering (v : Value) : Prop := v = .str "preorder" ∨ v = .str "topological"

def IsWhole (least : Int) (v : Value) : Prop := ∃ n, v = .int n ∧ least ≤ n

/-- A text that is not blank, or a number. -/
def IsLabel (v : Value) : Prop :=
  (∃ s, v = .str s ∧ isBlankText s = false) ∨ (∃ n, v = .int n) ∨ ∃ x, v = .float x

/-- The domain of a key. -/
def Key.Takes : Key → Value → Prop
  | .strictValidation | .exponentialBackoff => IsFlag
  | .ordering => IsOrdering
  | .projectPrefix | .runtimeVersion | .packageManager => IsLabel
  | .maxAttempts => IsWhole 1
  | .baseDelayMs | .maxDelayMs => IsWhole 0

def parts : List String := ["engine", "build", "retry"]

/-- The fields of a section; none if it is no mapping. -/
def fieldsOf (config : Dict) (part : String) : Dict :=
  match Dict.field config part with
  | some (.dict es) => es
  | _ => []

/-- What a configuration has under a key. -/
def given (config : Dict) (k : Key) : Option Value := Dict.field (fieldsOf config k.part) k.name

def wholeOr (fallback : Int) : Option Value → Int
  | some (.scalar (.int n)) => n
  | _ => fallback

def flagOr (fallback : Bool) : Option Value → Bool
  | some (.scalar (.bool b)) => b
  | _ => fallback

def labelOr (fallback : String) (o : Option Value) : String := (o.map Value.text).getD fallback

def orderingOr (fallback : Traversal) (o : Option Value) : Traversal :=
  (o.bind fun v => Traversal.ofName? v.text).getD fallback

/-- A section that is missing, null or a mapping. -/
def HasSection (config : Dict) (part : String) : Prop :=
  Dict.field config part = none ∨ Dict.field config part = some .null
    ∨ ∃ es, Dict.field config part = some (.dict es)

/-- A configuration with all sections and keys in their domains, and with delays that do not cross
when the defaults stand in for missing ones. -/
structure Accepted (config : Dict) : Prop where
  parts : ∀ part ∈ parts, HasSection config part
  keys : ∀ k v, given config k = some v → k.Takes v
  delays : wholeOr 1000 (given config .baseDelayMs) ≤ wholeOr 30000 (given config .maxDelayMs)

/-- What a configuration has under the known keys, and the defaults of the others. -/
def effective (config : Dict) : Settings where
  strictValidation := flagOr false (given config .strictValidation)
  ordering := orderingOr .preorder (given config .ordering)
  build :=
    { projectPrefix := labelOr "blockci" (given config .projectPrefix)
      runtimeVersion := labelOr "18" (given config .runtimeVersion)
      packageManager := labelOr "npm" (given config .packageManager) }
  retry :=
    { maxAttempts := wholeOr 3 (given config .maxAttempts)
      baseDelayMs := wholeOr 1000 (given config .baseDelayMs)
      maxDelayMs := wholeOr 30000 (given config .maxDelayMs)
      exponentialBackoff := flagOr true (given config .exponentialBackoff) }

section Checks

variable {α β : Type} {x : Except SettingError α} {p q : Prop} {a : α} {b : β}

/-- A check that gives `a` if `p` holds, and otherwise finds an invalid setting. -/
structure Yields (x : Except SettingError α) (p : Prop) (a : α) : Prop where
  accepted : p → x = .ok a
  refused : ¬p → ∃ e, x = .error e ∧ e.kind = "InvalidSettingError"

theorem yields_ok (h : p) : Yields (.ok a) p a :=
  ⟨fun _ => rfl, fun hp => absurd h hp⟩

theorem yields_error {e : SettingError} (he : e.kind = "InvalidSettingError") (h : ¬p) :
    Yields (.error e) p a :=
  ⟨fun hp => absurd hp h, fun _ => ⟨e, rfl, he⟩⟩

theorem Yields.bind {f : α → Except SettingError β} (h : Yields x p a)
    (hf : Yields (f a) q b) : Yields (x >>= f) (p ∧ q) b where
  accepted := fun ⟨hp, hq⟩ => by rw [h.accepted hp, ok_bind, hf.accepted hq]
  refused hpq := by
    by_cases hp : p
    · rw [h.accepted hp, ok_bind]
      exact hf.refused fun hq => hpq ⟨hp, hq⟩
    · obtain ⟨e, he, hkind⟩ := h.refused hp
      exact ⟨e, by rw [he]; rfl, hkind⟩

theorem Yields.congr (h : Yields x p a) (hpq : p ↔ q) : Yields x q a :=
  ⟨fun hq => h.accepted (hpq.2 hq), fun hq => h.refused fun hp => hq (hpq.1 hp)⟩

/-- A check of a value that is missing. -/
theorem yields_of_none {takes : Value → Prop} (h : x = .ok a) :
    Yields x (∀ v, none = some v → takes v) a :=
  ⟨fun _ => h, fun hmissing => absurd (by simp) hmissing⟩

/-- A check of a value that is there. -/
theorem Yields.of_some {v : Value} {takes : Value → Prop} (h : Yields x (takes v) a) :
    Yields x (∀ w, some v = some w → takes w) a :=
  h.congr (by simp)

variable (path : String) (d : Dict) (key : String)

theorem yields_boolAt (fallback : Bool) : Yields (boolAt path d key fallback)
    (∀ v, Dict.field d key = some v → IsFlag v) (flagOr fallback (Dict.field d key)) := by
  rw [boolAt]
  cases Dict.field d key with
  | none => exact yields_of_none rfl
  | some v =>
    refine Yields.of_some ?_
    rw [Option.getD_some]
    split
    · exact yields_ok ⟨_, rfl⟩
    · rename_i hv
      refine yields_error rfl ?_
      rintro ⟨b, rfl⟩
      exact hv b rfl

theorem yields_intAt (fallback least : Int) (h : least ≤ fallback) :
    Yields (intAt path d key fallback least)
      (∀ v, Dict.field d key = some v → IsWhole least v) (wholeOr fallback (Dict.field d key)) := by
  rw [intAt]
  cases Dict.field d key with
  | none => exact yields_of_none (if_neg (Int.not_lt.2 h))
  | some v =>
    refine Yields.of_some ?_
    rw [Option.getD_some]
    split
    · rename_i n
      by_cases hn : least ≤ n
      · rw [if_neg (Int.not_lt.2 hn)]
        exact yields_ok ⟨n, rfl, hn⟩
      · rw [if_pos (Int.not_le.1 hn)]
        refine yields_error rfl ?_
        rintro ⟨m, hm, hle⟩
        cases hm
        exact hn hle
    · rename_i hv
      refine yields_error rfl ?_
      rintro ⟨n, rfl, -⟩
      exact hv n rfl

theorem ofName?_eq_none {s : String} :
    Traversal.ofName? s = none ↔ s ≠ "preorder" ∧ s ≠ "topological" := by
  simp only [Traversal.ofName?, List.find?_eq_none, Traversal.all, List.forall_mem_cons,
    Traversal.name, beq_iff_eq, List.not_mem_nil, IsEmpty.forall_iff, implies_true, and_true]
  exact and_congr ne_comm ne_comm

theorem yields_orderingAt (fallback : Traversal) : Yields (orderingAt path d key fallback)
    (∀ v, Dict.field d key = some v → IsOrdering v)
    (orderingOr fallback (Dict.field d key)) := by
  rw [orderingAt]
  cases Dict.field d key with
  | none => exact yields_of_none (by cases fallback <;> rfl)
  | some v =>
    refine Yields.of_some ?_
    rw [Option.getD_some]
    split
    · rename_i s
      have htext : orderingOr fallback (some (.str s)) = (Traversal.ofName? s).getD fallback := rfl
      have htakes : IsOrdering (.str s) ↔ s = "preorder" ∨ s = "topological" := by
        simp [IsOrdering]
      rw [htext]
      cases ht : Traversal.ofName? s with
      | none => exact yields_error rfl (mt htakes.1 (not_or.2 (ofName?_eq_none.1 ht)))
      | some t =>
        refine yields_ok ?_
        by_contra h
        rw [htakes, not_or, ← ofName?_eq_none, ht] at h
        cases h
    · rename_i hv
      exact yields_error rfl (not_or.2 ⟨hv _, hv _⟩)

theorem yields_textAt (fallback : String) (h : isBlankText fallback = false) :
    Yields (textAt path d key fallback)
      (∀ v, Dict.field d key = some v → IsLabel v) (labelOr fallback (Dict.field d key)) := by
  rw [textAt]
  cases Dict.field d key with
  | none =>
    refine yields_of_none ?_
    dsimp only [Option.getD_none]
    rw [if_neg (by simp [h])]
    rfl
  | some v =>
    refine Yields.of_some ?_
    rw [Option.getD_some]
    cases v with
    | scalar s =>
      cases s with
      | int n =>
        have hvisible : isBlankText (Scalar.int n).text = false := isBlankText_int n
        dsimp only
        rw [hvisible]
        exact yields_ok (.inr (.inl ⟨n, rfl⟩))
      | float x =>
        have hvisible : isBlankText (Scalar.float x).text = false := isBlankText_display x
        dsimp only
        rw [hvisible]
        exact yields_ok (.inr (.inr ⟨x, rfl⟩))
      | str s =>
        dsimp only
        cases hs : isBlankText s with
        | false => exact yields_ok (.inl ⟨s, rfl, hs⟩)
        | true => exact yields_error rfl (by simp [IsLabel, hs])
      | _ => exact yields_error rfl (by simp [IsLabel])
    | _ => exact yields_error rfl (by simp [IsLabel])

theorem sectionOf_dict (config : Dict) (part : String) : sectionOf (.dict config) part
    = match (Dict.field config part).getD .null with
      | .scalar .null => .ok []
      | .dict d => .ok d
      | v => .error (.notMapping part v.kind) := rfl

theorem orElse_dict (config : Dict) : (Value.dict config).orElse (.dict []) = .dict config := by
  cases config <;> rfl

theorem yields_sectionOf (config : Dict) (part : String) :
    Yields (sectionOf (.dict config) part) (HasSection config part) (fieldsOf config part) := by
  rw [sectionOf_dict, HasSection, fieldsOf]
  cases Dict.field config part with
  | none => exact yields_ok (.inl rfl)
  | some v =>
    cases v with
    | dict es => exact yields_ok (.inr (.inr ⟨es, rfl⟩))
    | scalar s =>
      cases s with
      | null => exact yields_ok (.inr (.inl rfl))
      | _ => exact yields_error rfl (by simp)
    | _ => exact yields_error rfl (by simp)

/-- A check behind which others stand. -/
theorem Yields.guard {m n : Int} {e : SettingError} {f : Unit → Except SettingError α}
    (he : e.kind = "InvalidSettingError") (h : Yields (f ()) p a) :
    Yields (if m < n then throw e >>= f else f ()) (n ≤ m ∧ p) a := by
  by_cases hmn : n ≤ m
  · rw [if_neg (Int.not_lt.2 hmn)]
    exact h.congr (by simp [hmn])
  · rw [if_pos (Int.not_le.1 hmn)]
    exact yields_error he fun h => hmn h.1

theorem yields_resolve (config : Dict) :
    Yields (resolve (.dict config)) (Accepted config) (effective config) := by
  rw [resolve, orElse_dict]
  refine Yields.congr (.bind (yields_sectionOf config "engine") <|
    .bind (yields_sectionOf config "build") <| .bind (yields_sectionOf config "retry") <|
    .bind (yields_intAt _ _ _ _ _ (by decide)) <| .bind (yields_intAt _ _ _ _ _ (by decide)) <|
    .bind (yields_intAt _ _ _ _ _ (by decide)) <| .bind (yields_boolAt _ _ _ _) <|
    .guard rfl <| .bind (yields_boolAt _ _ _ _) <| .bind (yields_orderingAt _ _ _ _) <|
    .bind (yields_textAt _ _ _ _ (by decide)) <| .bind (yields_textAt _ _ _ _ (by decide)) <|
    .bind (yields_textAt _ _ _ _ (by decide)) (yields_ok trivial)) ?_
  constructor
  · rintro ⟨hengine, hbuild, hretry, hattempts, hbase, hmax, hbackoff, hdelays, hstrict, hordering,
      hprefix, hruntime, hmanager, -⟩
    refine ⟨?_, fun k => ?_, hdelays⟩
    · simp only [parts, List.forall_mem_cons]
      exact ⟨hengine, hbuild, hretry, nofun⟩
    · cases k <;> assumption
  · intro h
    have hsections := h.parts
    simp only [parts, List.forall_mem_cons] at hsections
    obtain ⟨hengine, hbuild, hretry, -⟩ := hsections
    exact ⟨hengine, hbuild, hretry, h.keys .maxAttempts, h.keys .baseDelayMs, h.keys .maxDelayMs,
      h.keys .exponentialBackoff, h.delays, h.keys .strictValidation, h.keys .ordering,
      h.keys .projectPrefix, h.keys .runtimeVersion, h.keys .packageManager, trivial⟩

end Checks

section Unknown

variable {config other : Dict} {part : String}

/-- Two configurations that have the same in every known section, or mappings with the same under
every known key of the section. All else may be added, removed or changed. -/
def Alike (config other : Dict) : Prop :=
  ∀ part ∈ parts, Dict.field other part = Dict.field config part
    ∨ ∃ es fs, Dict.field config part = some (.dict es) ∧ Dict.field other part = some (.dict fs)
      ∧ ∀ k : Key, k.part = part → Dict.field fs k.name = Dict.field es k.name

/-- Sections that are refused alike, or have the same under every known key. -/
inductive SameFields (part : String) :
    Except SettingError Dict → Except SettingError Dict → Prop
  | error (e : SettingError) : SameFields part (.error e) (.error e)
  | ok (es fs : Dict) (h : ∀ k : Key, k.part = part → Dict.field fs k.name = Dict.field es k.name) :
    SameFields part (.ok es) (.ok fs)

theorem SameFields.refl (x : Except SettingError Dict) : SameFields part x x := by
  cases x with
  | error e => exact .error e
  | ok es => exact .ok es es fun _ _ => rfl

theorem SameFields.bind {α : Type} {x y : Except SettingError Dict} (h : SameFields part x y)
    {f g : Dict → Except SettingError α}
    (hfg : ∀ es fs, (∀ k : Key, k.part = part → Dict.field fs k.name = Dict.field es k.name) →
      g fs = f es) : y >>= g = x >>= f := by
  cases h with
  | error e => rfl
  | ok es fs h => exact hfg es fs h

theorem Alike.sameFields (h : Alike config other) (hpart : part ∈ parts) :
    SameFields part (sectionOf (.dict config) part) (sectionOf (.dict other) part) := by
  rw [sectionOf_dict, sectionOf_dict]
  rcases h part hpart with heq | ⟨es, fs, hes, hfs, hfields⟩
  · rw [heq]
    exact .refl _
  · rw [hes, hfs]
    exact .ok es fs hfields

theorem resolve_alike (h : Alike config other) :
    resolve (.dict other) = resolve (.dict config) := by
  rw [resolve, resolve, orElse_dict, orElse_dict]
  refine (h.sameFields (by decide)).bind fun engine engine' hengine =>
    (h.sameFields (by decide)).bind fun build build' hbuild =>
    (h.sameFields (by decide)).bind fun retry retry' hretry => ?_
  have hstrict := hengine .strictValidation rfl
  have hordering := hengine .ordering rfl
  have hprefix := hbuild .projectPrefix rfl
  have hruntime := hbuild .runtimeVersion rfl
  have hmanager := hbuild .packageManager rfl
  have hattempts := hretry .maxAttempts rfl
  have hbase := hretry .baseDelayMs rfl
  have hmax := hretry .maxDelayMs rfl
  have hbackoff := hretry .exponentialBackoff rfl
  simp only [Key.name] at hstrict hordering hprefix hruntime hmanager hattempts hbase hmax hbackoff
  simp only [intAt, boolAt, orderingAt, textAt, hstrict, hordering, hprefix, hruntime, hmanager,
    hattempts, hbase, hmax, hbackoff]

end Unknown

section Bounds

variable {config : Dict} {o : Option Value}

theorem le_wholeOr {least fallback : Int} (h : ∀ v, o = some v → IsWhole least v)
    (hfallback : least ≤ fallback) : least ≤ wholeOr fallback o := by
  cases o with
  | none => exact hfallback
  | some v =>
    obtain ⟨n, rfl, hn⟩ := h v rfl
    exact hn

theorem isBlankText_labelOr {fallback : String} (h : ∀ v, o = some v → IsLabel v)
    (hfallback : isBlankText fallback = false) : isBlankText (labelOr fallback o) = false := by
  cases o with
  | none => exact hfallback
  | some v =>
    rcases h v rfl with ⟨s, rfl, hs⟩ | ⟨n, rfl⟩ | ⟨x, rfl⟩
    · exact hs
    · exact isBlankText_int n
    · exact isBlankText_display x

end Bounds

/-- Settings that every part of the pipeline can work with. -/
structure Sound (s : Settings) : Prop where
  attempts : 1 ≤ s.retry.maxAttempts
  base : 0 ≤ s.retry.baseDelayMs
  delays : s.retry.baseDelayMs ≤ s.retry.maxDelayMs
  projectPrefix : isBlankText s.build.projectPrefix = false
  runtimeVersion : isBlankText s.build.runtimeVersion = false
  packageManager : isBlankText s.build.packageManager = false
  planned : ∀ g : Graph, g.planNamed s.ordering.name = g.plan s.ordering
  ordering : ∀ (g : Graph) (name : String),
    g.planNamed s.ordering.name ≠ .error (.unknownTraversal name)

theorem Accepted.sound {config : Dict} (h : Accepted config) : (effective config).Sound where
  attempts := le_wholeOr (h.keys .maxAttempts) (by decide)
  base := le_wholeOr (h.keys .baseDelayMs) (by decide)
  delays := h.delays
  projectPrefix := isBlankText_labelOr (h.keys .projectPrefix) (by decide)
  runtimeVersion := isBlankText_labelOr (h.keys .runtimeVersion) (by decide)
  packageManager := isBlankText_labelOr (h.keys .packageManager) (by decide)
  planned g := g.planNamed_name _
  ordering g name := g.planNamed_name _ ▸ g.plan_ne_unknownTraversal _

/-- Numbers in place of texts, a section that is null, and keys that are not known. -/
def looseConfig : Dict :=
  [(.str "build", .ofTable [("runtime_version", .int 20), ("cache", .null)]),
    (.int 1, .bool true), (.str "engine", .ofTable [("ordering", .str "topological")]),
    (.str "retry", .null)]

/-- `looseConfig` without what is not known. -/
def plainConfig : Dict := Dict.of [("engine", .ofTable [("ordering", .str "topological")]),
  ("retry", .null), ("build", .ofTable [("runtime_version", .int 20)])]

/-- A longest delay below the default of the first one. -/
def crossedConfig : Dict := Dict.of [("retry", .ofTable [("max_delay_ms", .int 999)])]

end Settings

end BuildPipeline
