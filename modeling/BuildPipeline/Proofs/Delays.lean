import BuildPipeline.Proofs.Attempts
import BuildPipeline.Proofs.DocumentLaws

/-! Delays.  A wait that doubles without end is sooner or later too long for a float, and the
greatest delay does not help, since a wait is cut only after it has become one.  Until then a policy
from settings brings the operation's own failure and no other. -/

namespace BuildPipeline

open Number

theorem Number.isSome_ofInt? (n : Int) : (ofInt? n).isSome = decide (n.natAbs < floatLimit) := by
  rw [ofInt?]
  by_cases h : n.natAbs < floatLimit <;> simp [h]

section Settings

open Settings

theorem Settings.le_of_intAt {path : String} {d : Dict} {key : String} {fallback least n : Int}
    (h : intAt path d key fallback least = .ok n) : least ≤ n := by
  rw [intAt.eq_def] at h
  split at h
  · split at h
    · cases h
    · cases h
      omega
  · cases h

/-- What settings that were accepted say about trying again. -/
structure RetrySettings.Proper (s : RetrySettings) : Prop where
  attempts : 1 ≤ s.maxAttempts
  base : 0 ≤ s.baseDelayMs
  least : s.baseDelayMs ≤ s.maxDelayMs

theorem Settings.proper_of_resolve {config : Value} {s : Settings} (h : resolve config = .ok s) :
    s.retry.Proper := by
  rw [resolve] at h
  obtain ⟨engine, -, h⟩ := bind_eq_ok.1 h
  obtain ⟨build, -, h⟩ := bind_eq_ok.1 h
  obtain ⟨retry, -, h⟩ := bind_eq_ok.1 h
  obtain ⟨attempts, hattempts, h⟩ := bind_eq_ok.1 h
  obtain ⟨base, hbase, h⟩ := bind_eq_ok.1 h
  obtain ⟨most, hmost, h⟩ := bind_eq_ok.1 h
  obtain ⟨exponential, -, h⟩ := bind_eq_ok.1 h
  by_cases hcross : most < base
  · simp only [hcross, ite_true] at h
    cases h
  · simp only [hcross, ite_false] at h
    obtain ⟨-, -, h⟩ := bind_eq_ok.1 h
    obtain ⟨strict, -, h⟩ := bind_eq_ok.1 h
    obtain ⟨ordering, -, h⟩ := bind_eq_ok.1 h
    obtain ⟨lead, -, h⟩ := bind_eq_ok.1 h
    obtain ⟨runtime, -, h⟩ := bind_eq_ok.1 h
    obtain ⟨manager, -, h⟩ := bind_eq_ok.1 h
    cases h
    exact ⟨le_of_intAt hattempts, le_of_intAt hbase, Int.not_lt.1 hcross⟩

end Settings

namespace RetryPolicy

variable {s : RetrySettings} {random : Nat → Float}

/-- Adding to a wait and cutting it takes floats of the wait and of the greatest delay. -/
theorem isSome_jittered? (p : RetryPolicy) (raw : Amount) (drawn : Float) :
    (p.jittered? raw drawn).isSome = (raw.toFloat?.isSome && p.maxDelay.toFloat?.isSome) := by
  rw [jittered?]
  cases raw.toFloat? with
  | none => rfl
  | some d => cases p.maxDelay.toFloat? <;> rfl

/-- What is waited for after attempt `i`, counted from 0, before anything random is added. -/
theorem rawDelay?_ofSettings (s : RetrySettings) (i : Nat) :
    (ofSettings s).rawDelay? (i + 1) = (ofInt? s.baseDelayMs).map fun base =>
      if s.exponentialBackoff then .whole (s.baseDelayMs * 2 ^ i) else .fraction base := by
  have hscale : (Amount.whole s.baseDelayMs).scale i = some (.whole (s.baseDelayMs * 2 ^ i)) :=
    congrArg (fun k : Int => some (Amount.whole (s.baseDelayMs * k))) (Int.natCast_pow 2 i)
  rw [rawDelay?, Int.add_sub_cancel]
  change (ofInt? s.baseDelayMs).bind (fun base =>
    if s.exponentialBackoff then (Amount.whole s.baseDelayMs).scale i
    else some (.fraction base)) = _
  rw [hscale]
  cases s.exponentialBackoff <;> cases ofInt? s.baseDelayMs <;> rfl

theorem isSome_wait?_ofSettings (s : RetrySettings) (random : Nat → Float) (i : Nat) :
    ((ofSettings s).wait? random i).isSome ↔ s.baseDelayMs.natAbs < floatLimit
      ∧ (s.exponentialBackoff → (s.baseDelayMs * 2 ^ i).natAbs < floatLimit)
      ∧ s.maxDelayMs.natAbs < floatLimit := by
  have hbase := isSome_ofInt? s.baseDelayMs
  have hmost : (ofSettings s).maxDelay.toFloat?.isSome = _ := isSome_ofInt? s.maxDelayMs
  have hdoubled : (Amount.whole (s.baseDelayMs * 2 ^ i)).toFloat?.isSome = _ :=
    isSome_ofInt? (s.baseDelayMs * 2 ^ i)
  rw [wait?, delay?, rawDelay?_ofSettings]
  cases hb : ofInt? s.baseDelayMs with
  | none =>
    rw [hb] at hbase
    simp [of_decide_eq_false hbase.symm]
  | some base =>
    rw [hb] at hbase
    have hfits := of_decide_eq_true hbase.symm
    change ((ofSettings s).jittered? _ _).isSome ↔ _
    rw [isSome_jittered?, hmost]
    cases s.exponentialBackoff with
    | true => simp [hdoubled, hfits]
    | false => simp [Amount.toFloat?, hfits]

end RetryPolicy

/-- The waits after the first `n` attempts are not too long for floats. -/
def RetrySettings.FitsFloats (s : RetrySettings) (n : Nat) : Prop :=
  n = 0 ∨ s.maxDelayMs < floatLimit
    ∧ (s.exponentialBackoff → s.baseDelayMs * 2 ^ (n - 1) < floatLimit)

/-- The longest wait is the last one. -/
theorem RetrySettings.Proper.isSome_waits {s : RetrySettings} (h : s.Proper) (random : Nat → Float)
    (n : Nat) : (∀ i < n, ((RetryPolicy.ofSettings s).wait? random i).isSome) ↔ s.FitsFloats n := by
  have hbase := h.base
  have hleast := h.least
  have hdoubled (i : Nat) : 0 ≤ s.baseDelayMs * 2 ^ i :=
    Int.mul_nonneg hbase (Int.pow_nonneg (by decide))
  simp only [RetryPolicy.isSome_wait?_ofSettings, RetrySettings.FitsFloats]
  constructor
  · intro hall
    rcases Nat.eq_zero_or_pos n with hn | hn
    · exact .inl hn
    · obtain ⟨-, hlast, hmost⟩ := hall (n - 1) (by omega)
      refine .inr ⟨by omega, fun hexponential => ?_⟩
      have := hlast hexponential
      have := hdoubled (n - 1)
      omega
  · rintro (rfl | ⟨hmost, hlast⟩) i hi
    · omega
    · refine ⟨by omega, fun hexponential => ?_, by omega⟩
      have hpow : (2 : Int) ^ i ≤ 2 ^ (n - 1) := by
        exact_mod_cast Nat.pow_le_pow_right (by decide) (show i ≤ n - 1 by omega)
      have hle := Int.mul_le_mul_of_nonneg_left hpow hbase
      have := hlast hexponential
      have := hdoubled i
      omega

section Documented

/-- A response says what it says in mappings, as services document it. -/
def Fault.Documented (f : Fault) : Prop :=
  ∀ d, f.response = .dict d → ∀ part ∈ ["Error", "ResponseMetadata"],
    (Dict.fieldD d part).truthy = false ∨ ∃ es, Dict.fieldD d part = .dict es

def Failure.Documented (e : Failure) : Prop := ∀ f, e = .fault f → f.Documented

theorem Fault.Documented.responseField {f : Fault} (h : f.Documented) {part : String}
    (hpart : part ∈ ["Error", "ResponseMetadata"]) (name : String) :
    ∃ field, responseField f.response part name = .ok field := by
  rw [BuildPipeline.responseField.eq_def]
  split
  case h_1 es hes =>
    rcases h es hes part hpart with hempty | ⟨d, hd⟩
    · exact ⟨none, by simp [Value.orElse, hempty, Value.get]⟩
    · cases d with
      | nil => exact ⟨none, by simp [hd, Value.orElse, Value.truthy, Value.get]⟩
      | cons e d => exact ⟨_, by simp only [hd, Value.orElse, Value.truthy, Value.get]; rfl⟩
  case h_2 => exact ⟨none, rfl⟩

theorem Fault.Documented.effectiveCode {f : Fault} (h : f.Documented) :
    ∃ code, f.effectiveCode = .ok code := by
  obtain ⟨field, hfield⟩ := h.responseField List.mem_cons_self "Code"
  rw [Fault.effectiveCode, hfield]
  cases field with
  | none => exact ⟨_, rfl⟩
  | some code =>
    by_cases htruthy : code.truthy
    · exact ⟨code.text, if_pos htruthy⟩
    · exact ⟨_, if_neg htruthy⟩

theorem Fault.Documented.effectiveStatus {f : Fault} (h : f.Documented) :
    ∃ status, f.effectiveStatus = .ok status := by
  obtain ⟨field, hfield⟩ := h.responseField (.tail _ List.mem_cons_self) "HTTPStatusCode"
  rw [Fault.effectiveStatus, hfield]
  cases f.statuses.findSome? Value.status? with
  | some n => exact ⟨_, rfl⟩
  | none =>
    cases field with
    | none => exact ⟨_, rfl⟩
    | some v => cases v with
      | scalar s => cases s <;> exact ⟨_, rfl⟩
      | _ => exact ⟨_, rfl⟩

/-- Of a failure that a service documents it can be said whether it will pass. -/
theorem Failure.Documented.classified {e : Failure} (h : e.Documented) : e.Classified := by
  cases e with
  | fault f =>
    obtain ⟨code, hcode⟩ := (h f rfl).effectiveCode
    obtain ⟨status, hstatus⟩ := (h f rfl).effectiveStatus
    rw [Failure.Classified, Failure.isTransient, Fault.isTransient, hcode, hstatus]
    cases f.interruption with
    | true => exact ⟨true, rfl⟩
    | false =>
      change ∃ transient, (if hasTransientCode code then _ else
        if hasTransientMessage f.text then _ else _) = Except.ok transient
      split
      · exact ⟨true, rfl⟩
      · split
        · exact ⟨true, rfl⟩
        · exact ⟨_, rfl⟩
  | _ => exact ⟨_, rfl⟩

end Documented

namespace RetryPolicy

variable {α : Type} {p : RetryPolicy} {random : Nat → Float} {outcome : Nat → Except Failure α}

/-- A failure that a trial brings is that of its last call, which is the one that settles the
operation. -/
def BringsOwn (p : RetryPolicy) (outcome : Nat → Except Failure α) (t : Trial α) : Prop :=
  ∀ e, t.result = .error e → ∃ n, IsLeast {n | p.Settles outcome n} n
    ∧ t.answers = (List.range (n + 1)).map outcome ∧ outcome n = .error e

theorem Account.bringsOwn {n : Nat} {t : Trial α} (hn : IsLeast {n | p.Settles outcome n} n)
    (h : p.Account random outcome n t) : p.BringsOwn outcome t :=
  fun _ he => ⟨n, hn, h.answers, h.result.symm.trans he⟩

/-- If not every wait is a float, a trial ends with the first one that is none. -/
theorem run_tooLarge_of_isLeast {n : Nat} (hn : IsLeast {n | p.Settles outcome n} n)
    (hclassified : ∀ i e, outcome i = .error e → e.Classified)
    (hwaits : ¬ ∀ i < n, (p.wait? random i).isSome) :
    (p.run random outcome).result = .error .tooLargeForFloat
      ∧ ∃ i < n, (p.run random outcome).answers = (List.range (i + 1)).map outcome := by
  have hex : ∃ i, i < n ∧ p.wait? random i = none := by
    simpa only [not_forall, exists_prop, Option.not_isSome_iff_eq_none] using hwaits
  obtain ⟨hi, hnone⟩ := Nat.find_spec hex
  have hbefore {j : Nat} (hj : j < Nat.find hex) : (p.wait? random j).isSome := by
    rw [Option.isSome_iff_ne_none]
    exact fun hj' => Nat.find_min hex hj ⟨by omega, hj'⟩
  obtain ⟨e, he, hnot, hmore⟩ := exists_failure_of_not_settles (not_settles_of_lt hn hi)
  obtain ⟨transient, htransient⟩ := hclassified _ e he
  have hlt := lt_attempts_of_isLeast hn
  cases transient with
  | false => exact absurd htransient hnot
  | true =>
    obtain ⟨hresult, hanswers⟩ := run_tooLarge
      (fun j hj => passes_of_isLeast hn (by omega) (hbefore hj) (hclassified j)) (by omega) he
      htransient hnone
    exact ⟨hresult, _, hi, hanswers⟩

/-- Under a policy from settings, an operation that fails in documented ways brings its own failure
exactly if the waits up to the attempt that settles it are floats, and then its trial is that of
the attempts up to there.  If they are not, the first one that is too long takes the place of the
failure that it comes after. -/
theorem run_ofSettings_bringsOwn_iff {config : Value} {s : Settings}
    (hs : Settings.resolve config = .ok s) (random : Nat → Float)
    (outcome : Nat → Except Failure α)
    (hdocumented : ∀ i e, outcome i = .error e → e.Documented) :
    let p := ofSettings s.retry
    let t := p.run random outcome
    (p.attempts : Int) = s.retry.maxAttempts
      ∧ ∃ n, IsLeast {n | p.Settles outcome n} n
        ∧ (p.BringsOwn outcome t ↔ s.retry.FitsFloats n)
        ∧ ((∀ i < n, (p.wait? random i).isSome) ↔ s.retry.FitsFloats n)
        ∧ (s.retry.FitsFloats n → p.Account random outcome n t)
        ∧ (¬ s.retry.FitsFloats n → t.result = .error .tooLargeForFloat
          ∧ ∃ i < n, t.answers = (List.range (i + 1)).map outcome) := by
  intro p t
  have hproper := Settings.proper_of_resolve hs
  have hclassified i e (he : outcome i = .error e) : e.Classified := (hdocumented i e he).classified
  obtain ⟨n, hn⟩ := p.exists_isLeast_settles outcome
  have hwaits := hproper.isSome_waits random n
  have haccount (hfits : s.retry.FitsFloats n) : p.Account random outcome n t :=
    account_of_isLeast hn (hwaits.2 hfits) fun i _ => hclassified i
  have htooLarge (hnot : ¬ s.retry.FitsFloats n) :=
    run_tooLarge_of_isLeast hn hclassified (mt hwaits.1 hnot)
  refine ⟨?_, n, hn, ⟨fun hbrings => ?_, fun hfits => (haccount hfits).bringsOwn hn⟩, hwaits,
    haccount, htooLarge⟩
  · have := hproper.attempts
    simp only [p, attempts, ofSettings]
    omega
  · by_contra hnot
    obtain ⟨hresult, i, hi, hanswers⟩ := htooLarge hnot
    obtain ⟨m, hm, hall, -⟩ := hbrings _ hresult
    have hlength := congrArg List.length (hanswers.symm.trans hall)
    have := hm.unique hn
    simp at hlength
    omega

section Throttled

/-- Settings for so many attempts. -/
def attemptsConfig (n : Int) : Value :=
  .dict (Dict.of [("retry", .dict (Dict.of [("max_attempts", .int n)]))])

/-- What a service says that is called too often. -/
def throttled : Failure := .fault ⟨"ThrottlingException", "slow down", false, .null, [], .null⟩

theorem throttled_documented : throttled.Documented := by
  rintro f ⟨⟩ d ⟨⟩

/-- A service that is always called too often. -/
def alwaysThrottled (_ : Nat) : Except Failure Unit := .error throttled

/-- Such a service is settled by the last attempt alone. -/
theorem settles_alwaysThrottled {n : Nat} : p.Settles alwaysThrottled n ↔ n + 1 = p.attempts := by
  refine ⟨?_, fun h => .inr (.inr h)⟩
  rintro (⟨a, ⟨⟩⟩ | ⟨e, ⟨⟩, hrefused⟩ | hend)
  · cases hrefused
  · exact hend

theorem run_ofSettings_bringsOwn_five :
    ∃ s, Settings.resolve (attemptsConfig 5) = .ok s ∧ throttled.Documented
      ∧ let p := ofSettings s.retry
        let t := p.run (fun _ => 0.5) alwaysThrottled
        s.retry.FitsFloats 4 ∧ p.Account (fun _ => 0.5) alwaysThrottled 4 t
          ∧ p.BringsOwn alwaysThrottled t := by
  refine ⟨_, rfl, throttled_documented, ?_⟩
  intro p t
  have hdocumented (i : Nat) (e : Failure) (he : alwaysThrottled i = .error e) : e.Documented := by
    cases he
    exact throttled_documented
  obtain ⟨-, n, hn, hbrings, -, haccount, -⟩ :=
    run_ofSettings_bringsOwn_iff (show Settings.resolve (attemptsConfig 5) = .ok _ from rfl)
      (fun _ => 0.5) alwaysThrottled hdocumented
  obtain rfl : n = 4 := Nat.succ.inj (settles_alwaysThrottled.1 hn.1)
  have hfits : RetrySettings.FitsFloats ⟨5, 1000, 30000, true⟩ 4 := .inr (by decide +kernel)
  exact ⟨hfits, haccount hfits, hbrings.2 hfits⟩

/-- The wait after attempt 1016 is too long for a float, although none is to be longer than half a
minute. -/
theorem run_ofSettings_tooLarge :
    ∃ s, Settings.resolve (attemptsConfig 1100) = .ok s ∧ throttled.Documented
      ∧ let p := ofSettings s.retry
        let t := p.run (fun _ => 0.5) alwaysThrottled
        t.result = .error .tooLargeForFloat ∧ t.answers.length = 1016
          ∧ ¬ p.BringsOwn alwaysThrottled t := by
  refine ⟨_, rfl, throttled_documented, ?_⟩
  intro p t
  have hproper : RetrySettings.Proper ⟨1100, 1000, 30000, true⟩ := ⟨by decide, by decide, by decide⟩
  have hwaits : ∀ i < 1015, (p.wait? (fun _ => 0.5) i).isSome :=
    (hproper.isSome_waits _ 1015).2 (.inr (by decide +kernel))
  have hnone : p.wait? (fun _ => 0.5) 1015 = none := by
    rw [← Option.not_isSome_iff_eq_none, isSome_wait?_ofSettings]
    rintro ⟨-, hlong, -⟩
    exact absurd (hlong rfl) (by decide +kernel)
  have hpasses (i : Nat) (hi : i < 1015) : p.Passes (fun _ => 0.5) alwaysThrottled i := by
    obtain ⟨d, hd⟩ := Option.isSome_iff_exists.1 (hwaits i hi)
    exact ⟨throttled, d, rfl, rfl, hd⟩
  obtain ⟨hresult, hanswers⟩ := run_tooLarge hpasses (by decide) rfl rfl hnone
  refine ⟨hresult, ?_, fun hbrings => ?_⟩
  · rw [hanswers, List.length_map, List.length_range]
  · obtain ⟨n, -, -, hown⟩ := hbrings _ hresult
    cases hown

end Throttled

end RetryPolicy

end BuildPipeline
