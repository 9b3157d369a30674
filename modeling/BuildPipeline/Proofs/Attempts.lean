import BuildPipeline.Proofs.TrialLaws
import Mathlib.Order.Lattice.Nat

/-! Attempts.  An operation that is tried under a policy is called until one of its attempts settles
it: calls, waits, numbers drawn and events are those of the attempts up to there, one by one.  The
exception are failures of which nobody can say whether they will pass. -/

namespace BuildPipeline

/-- It can be said whether a failure will pass. -/
def Failure.Classified (e : Failure) : Prop := ∃ transient, e.isTransient = .ok transient

namespace RetryPolicy

variable {α : Type} {p : RetryPolicy} {random : Nat → Float} {outcome : Nat → Except Failure α}

/-- Attempt `n`, counted from 0, settles an operation: it brings an answer or a failure that will
not pass, or it is the last one. -/
def Settles (p : RetryPolicy) (outcome : Nat → Except Failure α) (n : Nat) : Prop :=
  (∃ a, outcome n = .ok a) ∨ (∃ e, outcome n = .error e ∧ e.isTransient = .ok false)
    ∨ n + 1 = p.attempts

/-- The wait after attempt `i`, counted from 0, in milliseconds. -/
def wait? (p : RetryPolicy) (random : Nat → Float) (i : Nat) : Option Float :=
  p.delay? (i + 1) (random i)

/-- What is said of attempt `i` when the operation is tried again. -/
def warning? (p : RetryPolicy) (random : Nat → Float) (outcome : Nat → Except Failure α) (i : Nat) :
    Option RetryEvent :=
  match outcome i with
  | .ok _ => none
  | .error e => (p.wait? random i).map (.retrying (i + 1) · e)

/-- What is said of attempt `n` when it is the last one. -/
def verdict (p : RetryPolicy) (n : Nat) : Except Failure α → List RetryEvent
  | .ok _ => []
  | .error e =>
    [if n + 1 = p.attempts then .exhausted p.attempts (n + 1) e else .refused (n + 1) e]

/-- All that a trial shows that is settled by attempt `n`. -/
structure Account (p : RetryPolicy) (random : Nat → Float) (outcome : Nat → Except Failure α)
    (n : Nat) (t : Trial α) : Prop where
  result : t.result = outcome n
  answers : t.answers = (List.range (n + 1)).map outcome
  draws : t.draws = n
  sleeps : t.sleeps.map some = (List.range n).map fun i => (p.wait? random i).map (· / 1000.0)
  events : t.events.map some = (List.range n).map (p.warning? random outcome)
    ++ (p.verdict n (outcome n)).map some
  closing : ∀ e, outcome n = .error e → ∃ event, t.events.getLast? = some event
    ∧ event.level = "error" ∧ ("attempt", .int (n + 1)) ∈ event.fields
    ∧ event.message = if n + 1 = p.attempts
      then s!"Operation failed after {p.attempts} attempts: {e.message}"
      else s!"Non-retryable error encountered: {e.message}"

/-- The operation is tried again after attempt `i`. -/
def Passes (p : RetryPolicy) (random : Nat → Float) (outcome : Nat → Except Failure α) (i : Nat) :
    Prop :=
  ∃ e d, outcome i = .error e ∧ e.isTransient = .ok true ∧ p.wait? random i = some d

/-- What is still to come when attempt `i` is about to be made. -/
def remaining (p : RetryPolicy) (random : Nat → Float) (outcome : Nat → Except Failure α)
    (i : Nat) : Trial α :=
  p.tryFrom random (.ofOutcomes outcome) (p.attempts - 1 - i) (i + 1) i i

section Remaining

variable {i : Nat} {e : Failure}

theorem remaining_ok {a : α} (h : outcome i = .ok a) :
    p.remaining random outcome i = .single (.ok a) := by
  unfold remaining tryFrom
  simp [Operation.ofOutcomes, Trial.single, h]

theorem remaining_last (hi : i + 1 = p.attempts) (h : outcome i = .error e) :
    p.remaining random outcome i
      = (Trial.single (.error e)).failing e 0 [.exhausted p.attempts (i + 1) e] := by
  rw [remaining, show p.attempts - 1 - i = 0 by omega]
  unfold tryFrom
  simp [Operation.ofOutcomes, Trial.single, h]

/-- An attempt that failed and is not the last one. -/
theorem remaining_failed (hi : i + 1 < p.attempts) (h : outcome i = .error e) :
    p.remaining random outcome i = match e.isTransient with
      | .error s => (Trial.single (.error e)).failing (.shape s) 0 []
      | .ok false => (Trial.single (.error e)).failing e 0 [.refused (i + 1) e]
      | .ok true => match p.rawDelay? (i + 1) with
        | none => (Trial.single (.error e)).failing .tooLargeForFloat 0 []
        | some raw => match p.jittered? raw (random i) with
          | none => (Trial.single (.error e)).failing .tooLargeForFloat 1 []
          | some d => (Trial.single (.error e)).retried (i + 1) e d
            (p.remaining random outcome (i + 1)) := by
  rw [remaining, show p.attempts - 1 - i = p.attempts - 1 - (i + 1) + 1 by omega]
  unfold tryFrom
  simp only [Operation.ofOutcomes, Trial.single, h]
  rfl

theorem remaining_refused (hi : i + 1 < p.attempts) (h : outcome i = .error e)
    (he : e.isTransient = .ok false) :
    p.remaining random outcome i = (Trial.single (.error e)).failing e 0 [.refused (i + 1) e] := by
  rw [remaining_failed hi h, he]

theorem remaining_unclassified {s : ShapeError} (hi : i + 1 < p.attempts)
    (h : outcome i = .error e) (he : e.isTransient = .error s) :
    p.remaining random outcome i = (Trial.single (.error e)).failing (.shape s) 0 [] := by
  rw [remaining_failed hi h, he]

theorem remaining_tooLarge (hi : i + 1 < p.attempts) (h : outcome i = .error e)
    (he : e.isTransient = .ok true) (hwait : p.wait? random i = none) : ∃ draws,
      p.remaining random outcome i
        = (Trial.single (.error e)).failing .tooLargeForFloat draws [] := by
  rw [remaining_failed hi h, he]
  cases hraw : p.rawDelay? (i + 1) with
  | none => exact ⟨0, rfl⟩
  | some raw =>
    have hdraw : p.jittered? raw (random i) = none := by
      simpa [wait?, delay?, hraw] using hwait
    simp only [hdraw]
    exact ⟨1, rfl⟩

theorem remaining_retried {d : Float} (hi : i + 1 < p.attempts) (h : outcome i = .error e)
    (he : e.isTransient = .ok true) (hwait : p.wait? random i = some d) :
    p.remaining random outcome i = (Trial.single (.error e)).retried (i + 1) e d
      (p.remaining random outcome (i + 1)) := by
  rw [remaining_failed hi h, he]
  rw [wait?, delay?, Option.bind_eq_bind, Option.bind_eq_some_iff] at hwait
  obtain ⟨raw, hraw, hdraw⟩ := hwait
  simp only [hraw, hdraw]

end Remaining

/-- A trial `t` is `rest` after `m` attempts that were tried again. -/
structure After (p : RetryPolicy) (random : Nat → Float) (outcome : Nat → Except Failure α)
    (m : Nat) (rest t : Trial α) : Prop where
  result : t.result = rest.result
  answers : t.answers = (List.range m).map outcome ++ rest.answers
  draws : t.draws = m + rest.draws
  sleeps : t.sleeps.map some
    = ((List.range m).map fun i => (p.wait? random i).map (· / 1000.0)) ++ rest.sleeps.map some
  events : t.events.map some
    = (List.range m).map (p.warning? random outcome) ++ rest.events.map some

theorem After.step {m : Nat} {t : Trial α}
    (h : p.After random outcome m (p.remaining random outcome m) t) (hm : m + 1 < p.attempts)
    (hpass : p.Passes random outcome m) :
    p.After random outcome (m + 1) (p.remaining random outcome (m + 1)) t := by
  obtain ⟨e, d, he, htransient, hwait⟩ := hpass
  rw [remaining_retried hm he htransient hwait] at h
  have hwarning : p.warning? random outcome m = some (.retrying (m + 1) d e) := by
    simp [warning?, he, hwait]
  constructor
  · exact h.result
  · simp [h.answers, Trial.retried, Trial.single, List.range_succ, he]
  · simp only [h.draws, Trial.retried, Trial.single]
    omega
  · simp [h.sleeps, Trial.retried, Trial.single, List.range_succ, hwait]
  · simp [h.events, Trial.retried, Trial.single, List.range_succ, hwarning]

/-- A trial as far as its attempts are tried again. -/
theorem run_after {m : Nat} (hm : m < p.attempts) (h : ∀ i < m, p.Passes random outcome i) :
    p.After random outcome m (p.remaining random outcome m) (p.run random outcome) := by
  induction m with
  | zero => exact ⟨rfl, rfl, (Nat.zero_add _).symm, rfl, rfl⟩
  | succ m ih => exact (ih (by omega) fun i hi => h i (by omega)).step hm (h m (by omega))

/-- The last attempt is made once, and then it is said what became of it. -/
theorem Settles.remaining {n : Nat} (h : p.Settles outcome n) (hn : n < p.attempts) :
    p.remaining random outcome n
      = { Trial.single (outcome n) with events := p.verdict n (outcome n) } := by
  cases hlast : outcome n with
  | ok a => exact remaining_ok hlast
  | error e =>
    by_cases hend : n + 1 = p.attempts
    · rw [remaining_last hend hlast, verdict, if_pos hend]
      rfl
    · rcases h with ⟨a, ha⟩ | ⟨e', he', hrefused⟩ | h
      · simp [hlast] at ha
      · cases hlast.symm.trans he'
        rw [remaining_refused (by omega) hlast hrefused, verdict, if_neg hend]
        rfl
      · exact absurd h hend

/-- What is said of a last attempt that failed. -/
theorem verdict_closing {n : Nat} {answer : Except Failure α} {e : Failure} (h : answer = .error e)
    (events : List RetryEvent) :
    ∃ event, (events ++ p.verdict n answer).getLast? = some event
      ∧ event.level = "error" ∧ ("attempt", .int (n + 1)) ∈ event.fields
      ∧ event.message = if n + 1 = p.attempts
        then s!"Operation failed after {p.attempts} attempts: {e.message}"
        else s!"Non-retryable error encountered: {e.message}" := by
  rw [h]
  by_cases hend : n + 1 = p.attempts
  · refine ⟨.exhausted p.attempts (n + 1) e, ?_, rfl, List.mem_cons_self, ?_⟩
    · rw [verdict, if_pos hend, List.getLast?_concat]
    · rw [if_pos hend]
      rfl
  · refine ⟨.refused (n + 1) e, ?_, rfl, List.mem_cons_self, ?_⟩
    · rw [verdict, if_neg hend, List.getLast?_concat]
    · rw [if_neg hend]
      rfl

/-- The account of a trial that is over with the attempt that settles it. -/
theorem After.account {n : Nat} {t : Trial α} (hsettles : p.Settles outcome n) (hn : n < p.attempts)
    (h : p.After random outcome n (p.remaining random outcome n) t) :
    p.Account random outcome n t := by
  rw [hsettles.remaining hn] at h
  constructor
  · exact h.result
  · simp [h.answers, Trial.single, List.range_succ]
  · exact h.draws
  · simp [h.sleeps, Trial.single]
  · exact h.events
  · intro e he
    obtain ⟨warnings, last, hevents, -, hlast⟩ := List.map_eq_append_iff.1 h.events
    rw [hevents, List.map_injective_iff.2 (Option.some_injective _) hlast]
    exact verdict_closing he warnings

/-- Some attempt settles an operation before all others do. -/
theorem exists_isLeast_settles (p : RetryPolicy) (outcome : Nat → Except Failure α) :
    ∃ n, IsLeast {n | p.Settles outcome n} n :=
  ⟨_, isLeast_csInf ⟨p.attempts - 1, .inr (.inr (Nat.sub_add_cancel p.attempts_pos))⟩⟩

/-- An attempt that settles nothing fails, and it is not said that the failure will not pass. -/
theorem exists_failure_of_not_settles {i : Nat} (h : ¬ p.Settles outcome i) :
    ∃ e, outcome i = .error e ∧ e.isTransient ≠ .ok false ∧ i + 1 ≠ p.attempts := by
  cases hi : outcome i with
  | ok a => exact absurd (.inl ⟨a, hi⟩) h
  | error e =>
    exact ⟨e, rfl, fun he => h (.inr (.inl ⟨e, hi, he⟩)), fun hend => h (.inr (.inr hend))⟩

/-- An attempt that settles nothing is followed by another one, if it can be said whether its
failure will pass and how long to wait. -/
theorem passes_of_not_settles {i : Nat} (h : ¬ p.Settles outcome i)
    (hwait : (p.wait? random i).isSome)
    (hclassified : ∀ e, outcome i = .error e → e.Classified) : p.Passes random outcome i := by
  obtain ⟨e, he, hnot, -⟩ := exists_failure_of_not_settles h
  obtain ⟨d, hd⟩ := Option.isSome_iff_exists.1 hwait
  obtain ⟨transient, htransient⟩ := hclassified e he
  cases transient with
  | true => exact ⟨e, d, he, htransient, hd⟩
  | false => exact absurd htransient hnot

/-- A failure of which nobody can say whether it will pass ends a trial in an error of its own. -/
theorem run_unclassified {i : Nat} {e : Failure} {s : ShapeError}
    (hpasses : ∀ j < i, p.Passes random outcome j) (hi : i + 1 < p.attempts)
    (he : outcome i = .error e) (hs : e.isTransient = .error s) :
    (p.run random outcome).result = .error (.shape s)
      ∧ (p.run random outcome).answers = (List.range (i + 1)).map outcome := by
  have h := run_after (by omega) hpasses
  rw [remaining_unclassified hi he hs] at h
  refine ⟨h.result, ?_⟩
  simp [h.answers, Trial.failing, Trial.single, List.range_succ, he]

/-- A wait that is too long for a float ends a trial in an error of its own. -/
theorem run_tooLarge {i : Nat} {e : Failure} (hpasses : ∀ j < i, p.Passes random outcome j)
    (hi : i + 1 < p.attempts) (he : outcome i = .error e) (htransient : e.isTransient = .ok true)
    (hwait : p.wait? random i = none) :
    (p.run random outcome).result = .error .tooLargeForFloat
      ∧ (p.run random outcome).answers = (List.range (i + 1)).map outcome := by
  have h := run_after (by omega) hpasses
  obtain ⟨draws, hrest⟩ := remaining_tooLarge hi he htransient hwait
  rw [hrest] at h
  refine ⟨h.result, ?_⟩
  simp [h.answers, Trial.failing, Trial.single, List.range_succ, he]

section Least

variable {n : Nat}

theorem not_settles_of_lt (hn : IsLeast {n | p.Settles outcome n} n) {i : Nat} (hi : i < n) :
    ¬ p.Settles outcome i :=
  fun hsettles => absurd (hn.2 hsettles) (by omega)

theorem lt_attempts_of_isLeast (hn : IsLeast {n | p.Settles outcome n} n) : n < p.attempts := by
  have hlast : p.Settles outcome (p.attempts - 1) :=
    .inr (.inr (Nat.sub_add_cancel p.attempts_pos))
  exact lt_of_le_of_lt (hn.2 hlast) (Nat.sub_one_lt_of_lt p.attempts_pos)

/-- The attempts before the one that settles an operation are followed by another one. -/
theorem passes_of_isLeast (hn : IsLeast {n | p.Settles outcome n} n) {i : Nat} (hi : i < n)
    (hwait : (p.wait? random i).isSome)
    (hclassified : ∀ e, outcome i = .error e → e.Classified) : p.Passes random outcome i :=
  passes_of_not_settles (not_settles_of_lt hn hi) hwait hclassified

theorem account_of_isLeast (hn : IsLeast {n | p.Settles outcome n} n)
    (hwait : ∀ i < n, (p.wait? random i).isSome)
    (hclassified : ∀ i < n, ∀ e, outcome i = .error e → e.Classified) :
    p.Account random outcome n (p.run random outcome) := by
  have hlt := lt_attempts_of_isLeast hn
  exact After.account hn.1 hlt
    (run_after hlt fun i hi => passes_of_isLeast hn hi (hwait i hi) (hclassified i hi))

/-- An account tells how many calls there were. -/
theorem Account.eq_of_answers {t : Trial α} (h : p.Account random outcome n t) {i : Nat}
    (hi : t.answers = (List.range (i + 1)).map outcome) : i = n := by
  have hlength := congrArg List.length (hi.symm.trans h.answers)
  simpa using hlength

end Least

/-- An operation that is tried under a policy is called up to the first attempt that settles it, and
its trial shows that attempt and the ones before it, with one wait and one number drawn after each
of them.  Nothing of this depends on whether anybody listens.  Where nobody can say whether a
failure will pass that is not the last one, the trial ends there, in an error that no call has
raised. -/
theorem run_account_iff (p : RetryPolicy) (random : Nat → Float)
    (outcome : Nat → Except Failure α) :
    let t := p.run random outcome
    ∃ n, IsLeast {n | p.Settles outcome n} n ∧ ((∀ i < n, (p.wait? random i).isSome) →
      (p.Account random outcome n t ↔ ∀ i < n, ∀ e, outcome i = .error e → e.Classified)
      ∧ (∀ i < n, ∀ e s, outcome i = .error e → e.isTransient = .error s →
        (∀ j < i, ∀ e, outcome j = .error e → e.Classified) →
        t.result = .error (.shape s) ∧ t.answers = (List.range (i + 1)).map outcome)
      ∧ t.silent.result = t.result ∧ t.silent.answers = t.answers ∧ t.silent.draws = t.draws
      ∧ t.silent.sleeps = t.sleeps) := by
  intro t
  obtain ⟨n, hn⟩ := p.exists_isLeast_settles outcome
  refine ⟨n, hn, fun hwait => ?_⟩
  have hbreaks : ∀ i < n, ∀ e s, outcome i = .error e → e.isTransient = .error s →
      (∀ j < i, ∀ e, outcome j = .error e → e.Classified) →
      t.result = .error (.shape s) ∧ t.answers = (List.range (i + 1)).map outcome := by
    intro i hi e s he hs hbefore
    have hlt := lt_attempts_of_isLeast hn
    exact run_unclassified (fun j hj => passes_of_isLeast hn (by omega) (hwait j (by omega))
      (hbefore j hj)) (by omega) he hs
  refine ⟨⟨fun haccount => ?_, account_of_isLeast hn hwait⟩, hbreaks, rfl, rfl, rfl, rfl⟩
  -- the first failure that cannot be classified would have been the last call
  intro i
  induction i using Nat.strong_induction_on with
  | _ i ih =>
    intro hi e he
    cases hs : e.isTransient with
    | ok transient => exact ⟨transient, hs⟩
    | error s =>
      have hanswers := (hbreaks i hi e s he hs fun j hj => ih j hj (by omega)).2
      exact absurd (haccount.eq_of_answers hanswers) (by omega)

/-- Two time-outs before an answer. -/
def timeOutTwice (n : Nat) : Except Failure Nat :=
  if n < 2 then .error (.fault ⟨"TimeoutError", "timed out", true, .null, [], .null⟩) else .ok n

theorem run_account_timeOutTwice :
    let random := fun _ => 0.5
    (∀ i < 2, (default.wait? random i).isSome)
      ∧ default.Account random timeOutTwice 2 (default.run random timeOutTwice) := by
  intro random
  have hwait : ∀ i < 2, (default.wait? random i).isSome := by decide +kernel
  refine ⟨hwait, ?_⟩
  obtain ⟨n, hn, h⟩ := run_account_iff default random timeOutTwice
  have htwo : IsLeast {n | default.Settles timeOutTwice n} 2 := by
    refine ⟨.inl ⟨2, rfl⟩, fun n hsettles => ?_⟩
    by_contra hlt
    have hfails : timeOutTwice n = .error _ := if_pos (by omega)
    rcases hsettles with ⟨a, ha⟩ | ⟨e, he, hrefused⟩ | hend
    · cases hfails.symm.trans ha
    · cases hfails.symm.trans he
      cases hrefused
    · have : default.attempts = 3 := rfl
      omega
  obtain rfl := hn.unique htwo
  refine (h hwait).1.2 fun i hi e he => ⟨true, ?_⟩
  have hfails : timeOutTwice i = .error _ := if_pos hi
  cases hfails.symm.trans he
  rfl

/-- A refusal that is described by a text where a mapping would be read. -/
def denied : Failure :=
  .fault ⟨"ServiceError", "access denied", false, .null, [],
    .dict (Dict.of [("Error", .str "AccessDenied")])⟩

/-- One such refusal before an answer. -/
def deniedOnce (n : Nat) : Except Failure Unit := if n = 0 then .error denied else .ok ()

/-- The failure that comes out is none of the operation's own, whichever attempt is taken to settle
it. -/
theorem run_account_deniedOnce :
    let t := default.run (fun _ => 0.5) deniedOnce
    (∀ i < 2, (default.wait? (fun _ => 0.5) i).isSome)
      ∧ t.result = .error (.shape (.noAttribute .str "get"))
      ∧ ∀ n, ¬ default.Account (fun _ => 0.5) deniedOnce n t := by
  intro t
  have hresult : t.result = .error (.shape (.noAttribute .str "get")) :=
    (run_unclassified (i := 0) (e := denied) (by simp) (by decide) rfl rfl).1
  refine ⟨by decide +kernel, hresult, fun n h => ?_⟩
  have hsame := hresult.symm.trans h.result
  cases n with
  | zero => cases hsame
  | succ n => cases hsame

end RetryPolicy

end BuildPipeline
