import BuildPipeline.Proofs.SessionLaws
import BuildPipeline.Proofs.TrialLaws

/-! Failures that can be written down.  As long as the triggers raise nothing else, neither does a
step at a node, however often it tries again. -/

namespace BuildPipeline

/-- A report gives its details as a mapping, or gives none. -/
def Failure.Reportable (e : Failure) : Prop :=
  ∀ r, e = .report r → r.details = .null ∨ ∃ d, r.details = .dict d

theorem Failure.Reportable.payload {e : Failure} (h : e.Reportable) (node : String) :
    ∃ p, e.payload node = .ok p := by
  cases e with
  | report r =>
    have hd : ∃ d, (r.details.orElse (.dict [])).toDict = .ok d := by
      rcases h r rfl with hr | ⟨d, hr⟩
      · exact ⟨[], by rw [hr]; rfl⟩
      · cases d with
        | nil => exact ⟨[], by rw [hr]; rfl⟩
        | cons e d => exact ⟨e :: d, by rw [hr]; rfl⟩
    obtain ⟨d, hd⟩ := hd
    rw [Failure.payload, hd]
    exact ⟨_, rfl⟩
  | _ => exact ⟨_, rfl⟩

theorem Failure.reportable_shape (e : ShapeError) : (Failure.shape e).Reportable := by
  intro r hr
  cases hr

theorem Failure.reportable_tooLargeForFloat : Failure.tooLargeForFloat.Reportable := by
  intro r hr
  cases hr

theorem Failure.reportable_ofPayload (family : ReportFamily) (p : ErrorPayload) :
    (Failure.report (.ofPayload family p)).Reportable := by
  intro r hr
  cases hr
  exact .inr ⟨p.details, rfl⟩

section Trials

variable {α κ : Type}

def Operation.Reportable (op : Operation α) : Prop :=
  ∀ calls draws e, (op calls draws).result = .error e → e.Reportable

/-- Trying again raises what the last attempt raised, unless it finds that it cannot wait. -/
theorem kept_reportable :
    Trial.Kept fun t : Trial α => ∀ e, t.result = .error e → e.Reportable where
  failing := by
    rintro t e e' draws events h hr hs e'' he
    cases he
    cases hs with
    | same => exact h e hr
    | shape s => exact Failure.reportable_shape s
    | tooLarge => exact Failure.reportable_tooLargeForFloat
  retried _ _ h := h
  silent h := h

theorem RetryPolicy.reportable_around (p : RetryPolicy) (random : Nat → Float) {op : Operation α}
    (h : op.Reportable) : (p.around random op).Reportable :=
  kept_reportable.around p random h

def Trigger.Reportable (t : Trigger κ α) : Prop :=
  ∀ earlier call e, t.answer earlier call = .error e → e.Reportable

theorem Trigger.Reportable.operation {t : Trigger κ α} (h : t.Reportable) (random : Nat → Float)
    (earlier : List κ) (call : κ) : (t.operation random earlier call).Reportable :=
  kept_reportable.operation h random earlier call

theorem Trigger.Reportable.ask {t : Trigger κ α} (h : t.Reportable) (policy : Option RetryPolicy)
    (random : Nat → Float) (draws : Nat) (earlier : List κ) (call : κ) {e : Failure}
    (he : (t.ask policy random draws earlier call).result = .error e) : e.Reportable := by
  have hop := h.operation random earlier call
  cases policy with
  | none => exact hop 0 draws e he
  | some p => exact p.reportable_around random hop 0 draws e he

end Trials

namespace Session

variable {α β : Type} {P : Failure → Prop}

/-- Every failure of a step is of a kind. -/
def Raises (P : Failure → Prop) (f : SessionStep α) : Prop := ∀ s e t, f.run s = .error e t → P e

theorem raises_modify (h : Session → Session) : Raises P (modify h) := by
  intro s e t he
  cases he

theorem raises_throw {e : Failure} (h : P e) : Raises P (throw e : SessionStep α) := by
  intro s e' t he
  cases he
  exact h

theorem raises_liftExcept {x : Except Failure α} (h : ∀ e, x = .error e → P e) :
    Raises P (liftExcept x) := by
  cases x with
  | ok a =>
    intro s e t he
    cases he
  | error e => exact raises_throw (h e rfl)

theorem raises_bind {f : SessionStep α} {k : α → SessionStep β} (hf : Raises P f)
    (hk : ∀ a, Raises P (k a)) : Raises P (f >>= k) := by
  intro s e t he
  rw [EStateM.run_bind] at he
  cases hfr : f.run s with
  | ok a u =>
    rw [hfr] at he
    exact hk a u e t he
  | error e' u =>
    rw [hfr] at he
    cases he
    exact hf s e t hfr

theorem raises_get {k : Session → SessionStep α} (hk : ∀ s, Raises P (k s)) :
    Raises P (get >>= k) := fun s e t he => hk s s e t he

theorem raises_shape (x : Except ShapeError α) :
    Raises Failure.Reportable (liftExcept (x.mapError Failure.shape)) := by
  refine raises_liftExcept fun e he => ?_
  cases x with
  | ok a => cases he
  | error s =>
    cases he
    exact Failure.reportable_shape s

theorem raises_report {x : Except Report α}
    (h : ∀ r, x = .error r → ∃ family p, r = .ofPayload family p) :
    Raises Failure.Reportable (liftExcept (x.mapError Failure.report)) := by
  refine raises_liftExcept fun e he => ?_
  cases x with
  | ok a => cases he
  | error r =>
    cases he
    obtain ⟨family, p, rfl⟩ := h r rfl
    exact Failure.reportable_ofPayload family p

theorem raises_settle (node : String) {t : Trial α} (call : Except Failure α → Call)
    (h : ∀ e, t.result = .error e → P e) : Raises P (settle node t call) :=
  raises_bind (raises_modify _) fun _ => raises_liftExcept h

theorem raises_warn (node message : String) : Raises P (warn node message) := by
  intro s e t he
  rw [warn_run] at he
  cases he

end Session

namespace Services

open Session

variable {x : Services}

theorem requireBuildId_eq_error {started : Option BuildStart} {project : String} {r : Report}
    (h : requireBuildId started project = .error r) :
    r = requireBuildId.noIdentifier project := by
  rw [requireBuildId.eq_def] at h
  split at h
  · split at h
    · cases h
    · exact (Except.error.inj h).symm
  · exact (Except.error.inj h).symm

theorem requireDeploymentId_eq_error {created : Option Deployment} {build : Value} {r : Report}
    (h : requireDeploymentId created build = .error r) :
    r = .noIdentifier "deploy" "no deployment id returned" [("build_id", build)] := by
  rw [requireDeploymentId.eq_def] at h
  split at h
  · cases h
  · exact (Except.error.inj h).symm

theorem raises_runBuild (h : x.buildTrigger.Reportable) (n : Node) :
    Raises Failure.Reportable (x.runBuild n) := by
  refine raises_get fun s => ?_
  refine raises_bind (raises_shape _) fun spec => ?_
  refine raises_bind (raises_shape _) fun project => ?_
  refine raises_bind (raises_shape _) fun env => ?_
  refine raises_bind (raises_modify _) fun _ => ?_
  refine raises_bind (raises_get fun s => ?_) fun started => ?_
  · exact raises_settle _ _ fun e he => h.ask _ _ _ _ _ he
  refine raises_bind (raises_report fun r hr => ⟨_, _, requireBuildId_eq_error hr⟩) fun _ => ?_
  refine raises_bind (raises_modify _) fun _ => ?_
  exact raises_modify _

theorem raises_runDeploy (h : x.deployTrigger.Reportable) (n : Node) :
    Raises Failure.Reportable (x.runDeploy n) := by
  rw [runDeploy_eq]
  refine raises_get fun s => ?_
  split
  · refine raises_bind (raises_modify _) fun _ => ?_
    refine raises_bind (raises_get fun s => ?_) fun created => ?_
    · exact raises_settle _ _ fun e he => h.ask _ _ _ _ _ he
    refine raises_bind (raises_report fun r hr => ⟨_, _, requireDeploymentId_eq_error hr⟩) fun _ => ?_
    refine raises_bind (raises_modify _) fun _ => ?_
    exact raises_modify _
  · exact raises_throw (Failure.reportable_ofPayload _ _)

theorem raises_dispatch (hb : x.buildTrigger.Reportable) (hd : x.deployTrigger.Reportable)
    (n : Node) : Raises Failure.Reportable (x.dispatch n) := by
  rw [dispatch]
  split
  · exact raises_modify _
  · exact raises_modify _
  · exact raises_modify _
  · exact raises_runBuild hb n
  · exact raises_runBuild hb n
  · exact raises_runBuild hb n
  · exact raises_runDeploy hd n
  all_goals exact raises_warn _ _

end Services

end BuildPipeline
