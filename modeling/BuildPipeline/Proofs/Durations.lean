import BuildPipeline.Proofs.Number.Products
import BuildPipeline.Proofs.RecordStorage

/-!
How long a node took. The span between two moments is measured in seconds and then in milliseconds,
rounded each time to the nearest float, and cut to whole milliseconds.
-/

namespace BuildPipeline

namespace Time

open Number

section Spans

variable {n k m : ℕ} {q : ℤ}

/-- A span in microseconds as whole milliseconds. -/
def spanMillis (micros : ℤ) : ℕ := whole (seconds micros * 1000.0)

theorem whole_ofParts (hc : Canonical m q) (negative : Bool) :
    whole (ofParts negative (bitsOf m q)) = if negative then 0 else wholePart m q := by
  rw [whole, truncate?, decode_ofParts hc]
  cases negative
  · rfl
  · change (-(wholePart m q : ℤ)).toNat = 0
    omega

theorem normal_thousand : Normal (1000 * 2 ^ 43) (-43) :=
  ⟨by decide, by decide, by decide, by decide⟩

theorem thousand_eq : (1000.0 : Float) = ofParts false (bitsOf (1000 * 2 ^ 43) (-43)) := by
  decide +kernel

theorem horizon_lt : (horizon : ℚ) < 2 ^ (39 : ℤ) * 10 ^ 6 := by
  norm_num [horizon, day, hour, second]

/-- A span that is not empty lies near a normal float in seconds. -/
theorem exists_near_seconds (hpos : 0 < n) (hn : n < horizon) :
    ∃ m q, Normal m q ∧ Near m q (n / 10 ^ 6) ∧ -72 ≤ q ∧ q ≤ -13 := by
  have hlow : (2 : ℚ) ^ (-20 : ℤ) ≤ n / 10 ^ 6 := by
    have hone : (1 : ℚ) ≤ n := by exact_mod_cast hpos
    have hpow : (2 : ℚ) ^ (-20 : ℤ) = 1 / 2 ^ 20 := by norm_num
    rw [hpow, div_le_div_iff₀ (by norm_num) (by norm_num)]
    linarith
  have hhigh : (n / 10 ^ 6 : ℚ) < 2 ^ (39 : ℤ) := by
    rw [div_lt_iff₀ (by norm_num)]
    exact lt_trans (by exact_mod_cast hn) horizon_lt
  obtain ⟨m, q, hnormal, hnear⟩ := exists_near
    ((zpow_le_zpow_right₀ one_le_two (by decide)).trans hlow)
    (hhigh.trans_le (zpow_le_zpow_right₀ one_le_two (by decide)))
  have hleast : -20 < q + 53 :=
    (zpow_lt_zpow_iff_right₀ one_lt_two).1 (hlow.trans_lt (hnear.lt hnormal.canonical))
  refine ⟨m, q, hnormal, hnear, by omega, ?_⟩
  by_contra! hlt
  obtain ⟨-, hle⟩ := hnear.of_lt (by omega) hnormal.leading
    (hhigh.trans_le (zpow_le_zpow_right₀ one_le_two (by omega)))
  have hplace := (zpow_lt_zpow_iff_right₀ one_lt_two).1 (hle.trans_lt hhigh)
  omega

/-- A span is rounded to a float in seconds, and a thousand times that float to another one. -/
theorem seconds_spec (hn : n < horizon) (negative : Bool) :
    ∃ m q, Canonical m q ∧ Near m q (n / 10 ^ 6)
      ∧ ofDecimal negative n (-6) = ofParts negative (bitsOf m q)
      ∧ ∃ m' q', Canonical m' q' ∧ Near m' q' (1000 * (m * 2 ^ q))
        ∧ ofDecimal negative n (-6) * 1000.0 = ofParts negative (bitsOf m' q') := by
  rcases n.eq_zero_or_pos with rfl | hpos
  · have hzero : Canonical 0 (-1074) := ⟨by decide, by decide, by decide, .inr rfl⟩
    refine ⟨0, -1074, hzero, ?_, ofDecimal_zero negative (-6), 0, -1074, hzero, ?_, ?_⟩
    · simpa using near_exact 0 (-1074)
    · simpa using near_exact 0 (-1074)
    · cases negative <;> decide +kernel
  · obtain ⟨m, q, hnormal, hnear, hleast, hgreatest⟩ := exists_near_seconds hpos hn
    obtain ⟨m', q', hnormal', hnear', hproduct⟩ := ofParts_mul hnormal normal_thousand
      (by omega) (by omega) negative false
    have hvalue : (n * 10 ^ (-6 : ℤ) : ℚ) = n / 10 ^ 6 := by norm_num [div_eq_mul_inv]
    have hseconds := ofDecimal_of_near hnormal.canonical hnormal.pos.ne' (hvalue ▸ hnear) negative
    have hunit : (((1000 * 2 ^ 43 : ℕ) : ℚ) * 2 ^ (-43 : ℤ)) = 1000 := by norm_num
    rw [hunit, mul_comm] at hnear'
    refine ⟨m, q, hnormal.canonical, hnear, hseconds, m', q', hnormal'.canonical, hnear', ?_⟩
    rw [hseconds, thousand_eq, hproduct, Bool.xor_false]

theorem seconds_natCast (n : ℕ) : seconds n = ofDecimal false n (-6) := by
  rw [seconds, decide_eq_false (by omega)]
  rfl

/-- Backwards nothing is measured. -/
theorem spanMillis_neg (hpos : 0 < n) (hn : n < horizon) : spanMillis (-n) = 0 := by
  obtain ⟨m, q, -, -, -, m', q', hc, -, hproduct⟩ := seconds_spec hn true
  have hseconds : seconds (-n) = ofDecimal true n (-6) := by
    rw [seconds, decide_eq_true (by omega), Int.natAbs_neg]
    rfl
  rw [spanMillis, hseconds, hproduct, whole_ofParts hc]
  rfl

theorem isNearest_seconds (hn : n < horizon) : IsNearest (seconds n) (n / 10 ^ 6) := by
  obtain ⟨m, q, hc, hnear, hseconds, -⟩ := seconds_spec hn false
  exact ⟨m, q, hc, hnear, (seconds_natCast n).trans hseconds⟩

/-- Whole milliseconds are reached from half the way to the float below them on. -/
theorem le_spanMillis_iff (hn : n < horizon) (hk : k < 2 ^ 52) :
    k ≤ spanMillis n ↔ k - halfGap k ≤ 1000 * value (seconds n) := by
  obtain ⟨m, q, hc, -, hseconds, m', q', hc', hnear, hproduct⟩ := seconds_spec hn false
  rw [spanMillis, seconds_natCast, hproduct, hseconds, whole_ofParts hc', value_ofParts hc]
  exact hnear.le_wholePart_iff hc' (by positivity) hk

theorem abs_value_seconds_sub_le {c : ℤ} (hn : n < horizon) (hc : -1074 < c)
    (hlt : (n : ℚ) < 2 ^ (c + 53) * 10 ^ 6) :
    |value (seconds n) - n / 10 ^ 6| ≤ 2 ^ (c - 1) := by
  obtain ⟨m, q, hcanonical, hnear, hseconds⟩ := isNearest_seconds hn
  rw [hseconds, value_ofParts hcanonical]
  exact hnear.error_le hcanonical ((div_lt_iff₀ (by norm_num)).2 hlt) hc

/-- The floats tell the whole milliseconds of a span: a thousand times its seconds are rounded to no
less than them, and to less than the next one. -/
def MillisKept (n : ℕ) : Prop :=
  ((n / 1000 : ℕ) - halfGap (n / 1000) : ℚ) ≤ 1000 * value (seconds n)
    ∧ 1000 * value (seconds n) < (n / 1000 + 1 : ℕ) - halfGap (n / 1000 + 1)

theorem spanMillis_eq_iff (hn : n < horizon) : spanMillis n = n / 1000 ↔ MillisKept n := by
  have hlt : n / 1000 + 1 < 2 ^ 52 := by
    simp only [horizon, day, hour, second] at hn
    omega
  rw [MillisKept, ← le_spanMillis_iff hn (by omega), ← not_le, ← le_spanMillis_iff hn hlt]
  omega

/-- The whole part of a span in milliseconds, and the rest. -/
theorem millis_eq (n : ℕ) : (n : ℚ) = 1000 * (n / 1000 : ℕ) + (n % 1000 : ℕ) := by
  exact_mod_cast (Nat.div_add_mod n 1000).symm

/-- At most one millisecond is lost or gained. -/
theorem spanMillis_bounds (hn : n < horizon) :
    spanMillis n ≤ n / 1000 + 1 ∧ n / 1000 ≤ spanMillis n + 1 := by
  obtain ⟨hlower, hupper⟩ := abs_le.1 (abs_value_seconds_sub_le (c := -14) hn (by decide)
    (lt_trans (by exact_mod_cast hn) horizon_lt))
  norm_num at hlower hupper
  have hmillis := millis_eq n
  have hrest : ((n % 1000 : ℕ) : ℚ) + 1 ≤ 1000 := by
    exact_mod_cast Nat.mod_lt n (by decide : 0 < 1000)
  have hlt : n / 1000 + 2 ≤ 2 ^ 49 := by
    simp only [horizon, day, hour, second] at hn
    omega
  constructor
  · by_contra! hmore
    have hreach := (le_spanMillis_iff hn (by omega)).1 (Nat.succ_le_of_lt hmore)
    have hgap := halfGap_le hlt
    norm_num at hgap hreach
    linarith
  · rcases (n / 1000).eq_zero_or_pos with hzero | hpos
    · rw [hzero]
      exact Nat.zero_le _
    · have hreach : n / 1000 - 1 ≤ spanMillis n := by
        refine (le_spanMillis_iff hn (by omega)).2 ?_
        have hgap : (0 : ℚ) ≤ halfGap (n / 1000 - 1) := halfGap_nonneg _
        rw [Nat.cast_sub hpos, Nat.cast_one]
        linarith
      omega

/-- Spans of less than 272 years come out exact, unless they are whole milliseconds: then one may be
lost. -/
theorem spanMillis_of_lt (hn : n < 2 ^ 33 * 10 ^ 6) :
    spanMillis n ≤ n / 1000 ∧ (n % 1000 ≠ 0 → spanMillis n = n / 1000) := by
  have hhorizon : n < horizon := by
    simp only [horizon, day, hour, second]
    omega
  have hlt : (n : ℚ) < 2 ^ (-20 + 53 : ℤ) * 10 ^ 6 := by
    have hlt : (n : ℚ) < 2 ^ 33 * 10 ^ 6 := by exact_mod_cast hn
    exact hlt
  obtain ⟨hlower, hupper⟩ := abs_le.1 (abs_value_seconds_sub_le hhorizon (by decide) hlt)
  norm_num at hlower hupper
  have hmillis := millis_eq n
  have hrest : ((n % 1000 : ℕ) : ℚ) + 1 ≤ 1000 := by
    exact_mod_cast Nat.mod_lt n (by decide : 0 < 1000)
  have hle : spanMillis n ≤ n / 1000 := by
    by_contra! hmore
    have hreach := (le_spanMillis_iff hhorizon (by omega)).1 (Nat.succ_le_of_lt hmore)
    have hgap := halfGap_le (c := 43) (show n / 1000 + 1 ≤ 2 ^ 43 by omega)
    norm_num at hgap hreach
    linarith
  refine ⟨hle, fun hfraction => le_antisymm hle ?_⟩
  refine (le_spanMillis_iff hhorizon (by omega)).2 ?_
  have hone : (1 : ℚ) ≤ (n % 1000 : ℕ) := by exact_mod_cast Nat.one_le_iff_ne_zero.2 hfraction
  have hgap := halfGap_nonneg (n / 1000)
  linarith

end Spans

namespace Moment

variable {s t u v : Moment}

theorem utc_eq_ok (h : t.utc = .ok u) :
    0 ≤ t.instant ∧ t.instant < horizon ∧ u = ⟨t.instant.toNat, some 0⟩ := by
  rw [utc] at h
  split at h
  case isTrue hrange =>
    cases h
    exact ⟨hrange.1, hrange.2, rfl⟩
  case isFalse => cases h

theorem instant_of_utc (h : t.utc = .ok u) : u.instant = t.instant := by
  obtain ⟨hnonneg, -, rfl⟩ := utc_eq_ok h
  exact (Int.sub_zero _).trans (Int.toNat_of_nonneg hnonneg)

theorem natAbs_span_lt (hs : s.utc = .ok u) (ht : t.utc = .ok v) :
    (t.instant - s.instant).natAbs < horizon := by
  have hs := utc_eq_ok hs
  have ht := utc_eq_ok ht
  omega

end Moment

end Time

open BuildPipeline.Time

/-- How a node ends. -/
inductive RecordAction.Ends (id : String) : RecordAction → Prop
  | finished (outputs : Option Dict) : Ends id (.nodeFinished id outputs)
  | failed (error : Dict) : Ends id (.nodeFailed id error)

namespace Record

variable {r : Record} {s t u v : Moment} {id other : String} {fields : Table String Value}
  {x : Option Value} {a : RecordAction}

/-- When a node was started, as it is recorded. -/
def startedAt (nodes : Table String Dict) (id : String) : Option Value :=
  Dict.field (Table.getD nodes id []) "started_at"

theorem startedAt_register (r : Record) (id other : String) :
    startedAt (r.register other).nodes id = startedAt r.nodes id := by
  simp only [startedAt, register, Table.getD, Table.get?_insertNew]
  cases Table.get? r.nodes id with
  | some n => rfl
  | none => by_cases h : other = id <;> simp [h, Dict.of, Dict.field_cons]

theorem startedAt_update (h : other = id → ∀ e ∈ fields, e.1 ≠ "started_at") :
    startedAt (r.update other fields).nodes id = startedAt r.nodes id := by
  by_cases hid : other = id
  · subst hid
    simp [startedAt, node, update, Table.getD, Table.get?_insert, Dict.field_union_of _ (h rfl)]
  · simp [startedAt, node, update, Table.getD, Table.get?_insert, hid]

theorem bears_startedAt {names : List String} (h : other = id → "started_at" ∉ names) :
    Bears (startedAt · id = x) other names where
  register {r} hr := (startedAt_register r id other).trans hr
  update hfields hr :=
    (startedAt_update fun hid e he heq => h hid (heq ▸ hfields e he)).trans hr

theorem startedAt_step (h : a ≠ .nodeStarted id) (t : Moment) :
    Keeps (startedAt ·.nodes id = x) (a.step t) := by
  cases a with
  | runStarted => exact nodes_runStarted (J := (startedAt · id = x)) t
  | nodeStarted other =>
    exact nodes_nodeStarted (bears_startedAt fun hid => absurd (hid ▸ rfl) h) t
  | nodeFinished other outputs => exact nodes_nodeFinished (bears_startedAt fun _ => by decide) _ t
  | nodeFailed other error => exact nodes_nodeFailed (bears_startedAt fun _ => by decide) _ t
  | runFinished status => exact nodes_runFinished (J := (startedAt · id = x)) status t

/-- Only a start of the node itself changes when it was started. -/
theorem startedAt_replay (r : Record) {as : List (RecordAction × Moment)}
    (h : ∀ a ∈ as, a.1 ≠ .nodeStarted id) :
    startedAt (r.replay as).nodes id = startedAt r.nodes id := by
  induction as generalizing r with
  | nil => rfl
  | cons a as ih =>
    obtain ⟨ha, has⟩ := List.forall_mem_cons.1 h
    exact (ih _ has).trans (startedAt_step ha a.2 r rfl)

/-- What is recorded of the time of a node that has ended. -/
structure Timed (r : Record) (id : String) (u v : Moment) (ms : ℕ) : Prop where
  duration : Dict.field (r.node id) "duration_ms" = some (.int ms)
  started : Dict.field (r.node id) "started_at" = some (.str u.iso)
  finished : Dict.field (r.node id) "finished_at" = some (.str v.iso)

theorem timed_ended {status : NodeStatus} {ms : ℕ} {more : Table String Value}
    (hmore : ∀ e ∈ more, e.1 ∉ ["duration_ms", "started_at", "finished_at"])
    (h : startedAt r.nodes id = some (.str u.iso)) (e : Dict) :
    ((r.ended id status v ms more).withEvent e).Timed id u v ms := by
  have hstart : Dict.field ((r.register id).node id) "started_at" = some (.str u.iso) :=
    (startedAt_register r id id).trans h
  have hnode : ((r.ended id status v ms more).withEvent e).node id
      = Table.union ((r.register id).node id) (Dict.of ([("status", .str status.name),
        ("finished_at", .str v.iso), ("duration_ms", .int ms)] ++ more)) := by
    simp [withEvent, ended, node, update, Table.getD, Table.get?_insert]
  have hfield (name : String) (hname : name ∈ ["duration_ms", "started_at", "finished_at"]) :
      ∀ e ∈ more, e.1 ≠ name := fun e he heq => hmore e he (heq ▸ hname)
  constructor <;> rw [hnode]
  · simp [Dict.union_of_cons, Dict.field_union_of _ (hfield "duration_ms" (by simp)), Dict.field_set]
  · simp [Dict.union_of_cons, Dict.field_union_of _ (hfield "started_at" (by simp)), Dict.field_set,
      hstart]
  · simp [Dict.union_of_cons, Dict.field_union_of _ (hfield "finished_at" (by simp)), Dict.field_set]

/-- A node that was started can end. -/
theorem exists_timed (ha : a.Ends id) (hs : s.utc = .ok u) (ht : t.utc = .ok v)
    (h : startedAt r.nodes id = some (.str u.iso)) :
    ∃ r', (a.step t).run r = .ok () r' ∧ r'.Timed id u v (wholeMillis u v) := by
  have hduration : duration ((r.register id).node id) t = .ok (wholeMillis u v) :=
    duration_eq hs ((startedAt_register r id id).trans h) ht
  cases ha with
  | finished outputs =>
    rw [RecordAction.step_nodeFinished]
    exact ⟨_, nodeFinished_run ht hduration, timed_ended (by simp) h _⟩
  | failed error => exact ⟨_, nodeFailed_run ht hduration, timed_ended (by simp) h _⟩

theorem exists_startedAt (r : Record) (id : String) (hs : s.utc = .ok u) :
    ∃ r', (RecordAction.step s (.nodeStarted id)).run r = .ok () r'
      ∧ startedAt r'.nodes id = some (.str u.iso) := by
  refine ⟨_, nodeStarted_run hs, ?_⟩
  simp [startedAt, withEvent, begun, node, update, Table.getD, Table.get?_insert,
    Dict.union_of_cons, Dict.field_set]

end Record

/-- The floats that the duration of a node goes through lose or gain at most a millisecond.  A node
that is started and later ends, whatever is done between short of starting it again, has the two
moments in UTC in its entry, as texts that are read back, and a duration that depends on the two
instants alone: nothing for a span that runs backwards, and the whole milliseconds of any other span
exactly if a thousand times the float nearest to its seconds is rounded to no less than them, and to
less than the next one.  Below 272 years no other spans than those of whole milliseconds lose one. -/
theorem node_durations_iff (r : Record) {id : String} {s t u v : Moment} (hs : s.utc = .ok u)
    (ht : t.utc = .ok v) {between : List (RecordAction × Moment)}
    (hbetween : ∀ b ∈ between, b.1 ≠ .nodeStarted id) {a : RecordAction} (ha : a.Ends id) :
    ∃ r₁ r₂ ms, (RecordAction.step s (.nodeStarted id)).run r = .ok () r₁
      ∧ (a.step t).run (r₁.replay between) = .ok () r₂ ∧ r₂.Timed id u v ms
      ∧ (Moment.read u.iso = .ok u ∧ u.instant = s.instant)
      ∧ (Moment.read v.iso = .ok v ∧ v.instant = t.instant)
      ∧ ms = spanMillis (t.instant - s.instant)
      ∧ (t.instant < s.instant → ms = 0)
      ∧ ∀ d : ℕ, t.instant = s.instant + d →
        Number.IsNearest (seconds d) (d / 10 ^ 6) ∧ (ms = d / 1000 ↔ MillisKept d)
          ∧ (ms ≤ d / 1000 + 1 ∧ d / 1000 ≤ ms + 1)
          ∧ (d < 2 ^ 33 * 10 ^ 6 → ms ≤ d / 1000 ∧ (d % 1000 ≠ 0 → ms = d / 1000)) := by
  have hu := Moment.instant_of_utc hs
  have hv := Moment.instant_of_utc ht
  have hspan := Moment.natAbs_span_lt hs ht
  have hreads {w x : Moment} (hw : w.utc = .ok x) : Moment.read x.iso = .ok x :=
    Moment.read_iso (Moment.utc_spec hw).1 (Moment.utc_spec hw).2.1
  obtain ⟨r₁, hstart, hstarted⟩ := Record.exists_startedAt r id hs
  obtain ⟨r₂, hend, htimed⟩ := Record.exists_timed ha hs ht
    ((Record.startedAt_replay r₁ hbetween).trans hstarted)
  have hms : wholeMillis u v = spanMillis (t.instant - s.instant) := by
    rw [← hu, ← hv]
    rfl
  refine ⟨r₁, r₂, _, hstart, hend, htimed, ⟨hreads hs, hu⟩, ⟨hreads ht, hv⟩, hms, ?_, ?_⟩
  · intro hlt
    obtain ⟨n, hn⟩ : ∃ n : ℕ, t.instant - s.instant = -n :=
      ⟨(s.instant - t.instant).toNat, by omega⟩
    rw [hms, hn]
    exact spanMillis_neg (by omega) (by omega)
  · intro d hd
    have hd : t.instant - s.instant = d := by omega
    have hn : d < horizon := by omega
    rw [hms, hd]
    exact ⟨isNearest_seconds hn, spanMillis_eq_iff hn, spanMillis_bounds hn, spanMillis_of_lt⟩

/-- A node that is started at midnight and fails, on a clock without offset, a second and a half and
half a millisecond later. -/
theorem node_durations_iff_late :
    let late : Moment := ⟨midnight.micros + 1500500, none⟩
    ∃ r r₁ r₂ u v, Record.create singleRun [("a", "start")] midnight .null = .ok r
      ∧ (RecordAction.step midnight (.nodeStarted "a")).run r = .ok () r₁
      ∧ (RecordAction.step late (.nodeFailed "a" [])).run
        (r₁.replay [(.nodeStarted "b", midnight)]) = .ok () r₂
      ∧ r₂.Timed "a" u v 1500 := by
  intro late
  have hcreate : Record.create singleRun [("a", "start")] midnight .null = .ok _ := rfl
  have hbetween : ∀ b ∈ [(RecordAction.nodeStarted "b", midnight)], b.1 ≠ .nodeStarted "a" := by
    simp
  obtain ⟨r₁, r₂, ms, hstart, hend, htimed, -, -, -, -, hspan⟩ := node_durations_iff _
    (show midnight.utc = .ok midnight by decide)
    (show late.utc = .ok ⟨midnight.micros + 1500500, some 0⟩ by decide) hbetween (.failed [])
  obtain ⟨-, -, -, hshort⟩ := hspan 1500500 (by decide)
  obtain rfl : ms = 1500 := (hshort (by decide)).2 (by decide)
  exact ⟨_, r₁, r₂, _, _, hcreate, hstart, hend, htimed⟩

/-- A node that takes 1001 milliseconds is recorded with 1000. -/
theorem node_duration_short :
    let late : Moment := ⟨midnight.micros + 1001000, some 0⟩
    late.instant - midnight.instant = 1001 * 1000
      ∧ ∃ r r₁ r₂, Record.create singleRun [("a", "start")] midnight .null = .ok r
        ∧ (RecordAction.step midnight (.nodeStarted "a")).run r = .ok () r₁
        ∧ (RecordAction.step late (.nodeFinished "a" none)).run r₁ = .ok () r₂
        ∧ Dict.field (r₂.node "a") "duration_ms" = some (.int 1000) := by
  intro late
  have hcreate : Record.create singleRun [("a", "start")] midnight .null = .ok _ := rfl
  have hs : midnight.utc = .ok midnight := by decide
  have ht : late.utc = .ok late := by decide
  obtain ⟨r₁, hstart, hstarted⟩ := Record.exists_startedAt _ "a" hs
  obtain ⟨r₂, hend, htimed⟩ := Record.exists_timed (.finished none) hs ht hstarted
  have hms : wholeMillis midnight late = 1000 := by decide +kernel
  rw [hms] at htimed
  exact ⟨by decide, _, r₁, r₂, hcreate, hstart, hend, htimed.duration⟩

end BuildPipeline
