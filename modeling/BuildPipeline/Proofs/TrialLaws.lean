import BuildPipeline.Trigger.Basic

/-! Laws of trials.  What holds of every single call, and is kept when a trial is given up or tried
again, holds of whatever a trigger is asked under whatever policies. -/

namespace BuildPipeline

variable {α κ : Type}

namespace Trial

/-- What a trial may raise after an attempt that failed. -/
inductive Surfaces (e : Failure) : Failure → Prop
  | same : Surfaces e e
  | shape (s : ShapeError) : Surfaces e (.shape s)
  | tooLarge : Surfaces e .tooLargeForFloat

/-- A property that a trial keeps when it is given up, tried again or not listened to. -/
structure Kept (P : Trial α → Prop) : Prop where
  failing {t : Trial α} {e e' : Failure} {draws : Nat} {events : List RetryEvent} :
    P t → t.result = .error e → Surfaces e e' → P (t.failing e' draws events)
  retried {t rest : Trial α} {e : Failure} {attempt : Nat} {delay : Float} :
    P t → t.result = .error e → P rest → P (t.retried attempt e delay rest)
  silent {t : Trial α} : P t → P t.silent

variable {P : Trial α → Prop}

theorem Kept.tryFrom (hP : Kept P) (p : RetryPolicy) (random : Nat → Float) {op : Operation α}
    (h : ∀ calls draws, P (op calls draws)) (left attempt calls draws : Nat) :
    P (p.tryFrom random op left attempt calls draws) := by
  have ht := h calls draws
  induction left generalizing attempt calls draws with
  | zero =>
    unfold RetryPolicy.tryFrom
    cases hr : (op calls draws).result with
    | ok a => simpa only [hr] using ht
    | error e =>
      simp only [hr]
      exact hP.failing ht hr .same
  | succ left ih =>
    unfold RetryPolicy.tryFrom
    cases hr : (op calls draws).result with
    | ok a => simpa only [hr] using ht
    | error e =>
      simp only [hr]
      split
      · exact hP.failing ht hr (.shape _)
      · exact hP.failing ht hr .same
      · split
        · exact hP.failing ht hr .tooLarge
        · split
          · exact hP.failing ht hr .tooLarge
          · exact hP.retried ht hr (ih _ _ _ (h _ _))

theorem Kept.around (hP : Kept P) (p : RetryPolicy) (random : Nat → Float) {op : Operation α}
    (h : ∀ calls draws, P (op calls draws)) (calls draws : Nat) :
    P (p.around random op calls draws) :=
  hP.tryFrom p random h _ _ _ _

/-- What holds of single calls, and of what is tried again and not talked about, holds of all that
a trigger does by itself. -/
theorem operation_of {t : Trigger κ α} {random : Nat → Float}
    (hsingle : ∀ earlier call, P (.single (t.answer earlier call)))
    (haround : ∀ (p : RetryPolicy) (op : Operation α), (∀ calls draws, P (op calls draws)) →
      ∀ calls draws, P (p.around random op calls draws).silent)
    (earlier : List κ) (call : κ) (calls draws : Nat) :
    P (t.operation random earlier call calls draws) := by
  have hfold (ps : List RetryPolicy) (op : Operation α) (hop : ∀ calls draws, P (op calls draws)) :
      ∀ calls draws, P (ps.foldl
        (fun op p calls draws => (p.around random op calls draws).silent) op calls draws) := by
    induction ps generalizing op with
    | nil => exact hop
    | cons p ps ih => exact ih _ (haround p op hop)
  exact hfold t.policies _ (fun calls _ => hsingle _ call) calls draws

theorem Kept.operation (hP : Kept P) {t : Trigger κ α}
    (h : ∀ earlier call, P (.single (t.answer earlier call))) (random : Nat → Float)
    (earlier : List κ) (call : κ) (calls draws : Nat) :
    P (t.operation random earlier call calls draws) :=
  operation_of h (fun p _ hop calls draws => hP.silent (hP.around p random hop calls draws))
    earlier call calls draws

/-- A property of single calls that is kept holds of everything that a trigger is asked. -/
theorem Kept.ask (hP : Kept P) {t : Trigger κ α}
    (h : ∀ earlier call, P (.single (t.answer earlier call))) (policy : Option RetryPolicy)
    (random : Nat → Float) (draws : Nat) (earlier : List κ) (call : κ) :
    P (t.ask policy random draws earlier call) := by
  cases policy with
  | none => exact hP.operation h random earlier call 0 draws
  | some p => exact hP.around p random (hP.operation h random earlier call) 0 draws

/-- Every answer is a failure, but for a last one that is the result. -/
def Conclusive (t : Trial α) : Prop :=
  ∃ failures : List Failure, t.answers = failures.map .error ++ match t.result with
    | .ok a => [.ok a]
    | .error _ => []

theorem kept_conclusive : Kept (Conclusive : Trial α → Prop) where
  failing := by
    rintro t e e' draws events ⟨failures, h⟩ hr -
    rw [hr] at h
    exact ⟨failures, h⟩
  retried := by
    rintro t rest e attempt delay ⟨failures, h⟩ hr ⟨more, hmore⟩
    rw [hr] at h
    refine ⟨failures ++ more, ?_⟩
    simp only [retried, h, hmore, List.append_nil, List.map_append, List.append_assoc]
  silent h := h

theorem conclusive_single (answer : Except Failure α) : (single answer).Conclusive := by
  cases answer with
  | ok a => exact ⟨[], rfl⟩
  | error e => exact ⟨[e], rfl⟩

/-- A trigger is asked until it answers, and not again. -/
theorem conclusive_ask (t : Trigger κ α) (policy : Option RetryPolicy) (random : Nat → Float)
    (draws : Nat) (earlier : List κ) (call : κ) :
    (t.ask policy random draws earlier call).Conclusive :=
  kept_conclusive.ask (fun _ _ => conclusive_single _) policy random draws earlier call

theorem kept_asked : Kept (fun t : Trial α => t.answers ≠ []) where
  failing h _ _ := h
  retried h _ _ := by simp [retried, h]
  silent h := h

end Trial

/-- The attempt that an event is about. -/
def RetryEvent.attempt : RetryEvent → Nat
  | .exhausted _ a _ | .refused a _ | .retrying a _ _ => a

namespace Trial

/-- Events are about attempts that were made, of which there are number `attempt` and at most
`left` more. -/
def Numbered (attempt left : Nat) (t : Trial α) : Prop :=
  ∀ e ∈ t.events, e.attempt < attempt + t.answers.length ∧ e.attempt ≤ attempt + left

/-- One call or more, and nothing said about them. -/
structure Quiet (t : Trial α) : Prop where
  asked : t.answers ≠ []
  events : t.events = []

variable {t rest : Trial α} {attempt left : Nat}

theorem Quiet.numbered (h : t.Quiet) (attempt left : Nat) : t.Numbered attempt left := by
  intro e he
  simp [h.events] at he

theorem Quiet.failing (h : t.Quiet) (e : Failure) (draws : Nat) {events : List RetryEvent}
    (hall : ∀ event ∈ events, event.attempt = attempt) :
    (t.failing e draws events).Numbered attempt left := by
  intro event hevent
  have hlength := List.length_pos_iff.2 h.asked
  simp only [Trial.failing, h.events, List.nil_append] at hevent ⊢
  rw [hall event hevent]
  omega

theorem Quiet.retried (h : t.Quiet) (e : Failure) (delay : Float)
    (hrest : rest.Numbered (attempt + 1) left) :
    (t.retried attempt e delay rest).Numbered attempt (left + 1) := by
  intro event hevent
  have hlength := List.length_pos_iff.2 h.asked
  simp only [Trial.retried, h.events, List.nil_append, List.mem_cons,
    List.length_append] at hevent ⊢
  rcases hevent with rfl | hevent
  · simp only [RetryEvent.attempt]
    omega
  · have := hrest event hevent
    omega

theorem numbered_tryFrom (p : RetryPolicy) (random : Nat → Float) {op : Operation α}
    (hop : ∀ calls draws, (op calls draws).Quiet) (left attempt calls draws : Nat) :
    (p.tryFrom random op left attempt calls draws).Numbered attempt left := by
  have hquiet := hop calls draws
  induction left generalizing attempt calls draws with
  | zero =>
    unfold RetryPolicy.tryFrom
    cases hr : (op calls draws).result with
    | ok a => simpa only [hr] using hquiet.numbered attempt _
    | error e =>
      simp only [hr]
      exact hquiet.failing _ _ (by simp [RetryEvent.attempt])
  | succ left ih =>
    unfold RetryPolicy.tryFrom
    cases hr : (op calls draws).result with
    | ok a => simpa only [hr] using hquiet.numbered attempt _
    | error e =>
      simp only [hr]
      split
      · exact hquiet.failing _ _ (by simp)
      · exact hquiet.failing _ _ (by simp [RetryEvent.attempt])
      · split
        · exact hquiet.failing _ _ (by simp)
        · split
          · exact hquiet.failing _ _ (by simp)
          · exact hquiet.retried _ _ (ih _ _ _ (hop _ _))

end Trial

theorem RetryPolicy.attempts_pos (p : RetryPolicy) : 0 < p.attempts := by
  rw [attempts]
  omega

namespace Trigger

/-- A trigger says nothing about what it tries by itself. -/
theorem quiet_operation (t : Trigger κ α) (random : Nat → Float) (earlier : List κ) (call : κ)
    (calls draws : Nat) : (t.operation random earlier call calls draws).Quiet :=
  Trial.operation_of (fun _ _ => ⟨by simp [Trial.single], rfl⟩)
    (fun p _ hop _ _ =>
      ⟨Trial.kept_asked.around p random (fun calls draws => (hop calls draws).asked) _ _, rfl⟩)
    earlier call calls draws

/-- What is said under a policy is about attempts that were made. -/
theorem attempt_le_of_mem_ask (t : Trigger κ α) (p : RetryPolicy) (random : Nat → Float)
    (draws : Nat) (earlier : List κ) (call : κ) :
    let trial := t.ask (some p) random draws earlier call
    ∀ e ∈ trial.events, e.attempt ≤ min p.attempts trial.answers.length := by
  intro trial e he
  have hnumbered : trial.Numbered 1 (p.attempts - 1) :=
    Trial.numbered_tryFrom p random (t.quiet_operation random earlier call) _ 1 0 draws
  have hpos := p.attempts_pos
  have := hnumbered e he
  omega

/-- A trigger that tries again by itself does what it does when it is asked under a policy, and says
nothing about it. -/
theorem ask_retrying (t : Trigger κ α) (p : RetryPolicy) (random : Nat → Float) (draws : Nat)
    (earlier : List κ) (call : κ) :
    (t.retrying p).ask none random draws earlier call
      = (t.ask (some p) random draws earlier call).silent := by
  simp only [ask, operation, retrying, List.foldl_append]
  rfl

end Trigger

end BuildPipeline
