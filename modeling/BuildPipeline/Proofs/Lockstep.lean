import BuildPipeline.Proofs.RunLaws

/-! Two runs side by side.  A relation between runs that reading the clock and writing the record,
the log and the store keep holds all along two runs over one plan, as soon as the steps at each
node keep it and come to the same. -/

namespace BuildPipeline

open BuildPipeline.Time

section Agree

variable {ε σ α β : Type} {R : σ → σ → Prop}

/-- Two results that come to the same, in states that `R` relates. -/
inductive Agree (R : σ → σ → Prop) : EStateM.Result ε σ α → EStateM.Result ε σ α → Prop
  | ok (a : α) {s t : σ} : R s t → Agree R (.ok a s) (.ok a t)
  | error (e : ε) {s t : σ} : R s t → Agree R (.error e s) (.error e t)

theorem Agree.mono {S : σ → σ → Prop} {r r' : EStateM.Result ε σ α} (h : Agree R r r')
    (hRS : ∀ s t, R s t → S s t) : Agree S r r' := by
  cases h with
  | ok a h => exact .ok a (hRS _ _ h)
  | error e h => exact .error e (hRS _ _ h)

theorem Agree.stateOf {r r' : EStateM.Result ε σ α} (h : Agree R r r') :
    R (stateOf r) (stateOf r') := by
  cases h with
  | ok a h => exact h
  | error e h => exact h

/-- From states that `R` relates, two steps come to the same, and to such states again. -/
def Matches (R : σ → σ → Prop) (f g : EStateM ε σ α) : Prop :=
  ∀ s t, R s t → Agree R (f.run s) (g.run t)

theorem matches_pure (a : α) : Matches R (pure a : EStateM ε σ α) (pure a) :=
  fun _ _ h => .ok a h

theorem matches_throw (e : ε) : Matches R (throw e : EStateM ε σ α) (throw e) :=
  fun _ _ h => .error e h

theorem matches_liftExcept (r : Except ε α) :
    Matches R (liftExcept r : EStateM ε σ α) (liftExcept r) := by
  cases r with
  | ok a => exact matches_pure a
  | error e => exact matches_throw e

theorem matches_modify {h h' : σ → σ} (hh : ∀ s t, R s t → R (h s) (h' t)) :
    Matches R (modify h : EStateM ε σ PUnit) (modify h') :=
  fun s t hst => .ok _ (hh s t hst)

theorem matches_bind {f g : EStateM ε σ α} {k k' : α → EStateM ε σ β} (hf : Matches R f g)
    (hk : ∀ a, Matches R (k a) (k' a)) : Matches R (f >>= k) (g >>= k') := by
  intro s t h
  have hfg := hf s t h
  rw [EStateM.run_bind, EStateM.run_bind]
  generalize f.run s = r at hfg ⊢
  generalize g.run t = r' at hfg ⊢
  cases hfg with
  | ok a h' => exact hk a _ _ h'
  | error e h' => exact .error e h'

theorem matches_get {k k' : σ → EStateM ε σ α}
    (hk : ∀ s t, R s t → Agree R ((k s).run s) ((k' t).run t)) :
    Matches R (get >>= k) (get >>= k') := hk

end Agree

namespace Run

variable {α : Type} {R : Run → Run → Prop}

/-- A relation between runs that all steps of them keep but for those at their nodes. -/
structure Paired (R : Run → Run → Prop) : Prop where
  ticks {r₁ r₂ : Run} : R r₁ r₂ → r₁.world.ticks = r₂.world.ticks
  record {r₁ r₂ : Run} : R r₁ r₂ → r₁.record = r₂.record
  snapshot {r₁ r₂ : Run} : R r₁ r₂ → r₁.context.snapshot = r₂.context.snapshot
  ticked {r₁ r₂ : Run} (ticks : Nat) : R r₁ r₂ →
    R { r₁ with world := { r₁.world with ticks } } { r₂ with world := { r₂.world with ticks } }
  recorded {r₁ r₂ : Run} (record : Record) : R r₁ r₂ → R { r₁ with record } { r₂ with record }
  failed {r₁ r₂ : Run} (node : String) (payload : ErrorPayload) : R r₁ r₂ →
    R (r₁.log node "error" payload.message [("error_type", .str payload.type)])
      (r₂.log node "error" payload.message [("error_type", .str payload.type)])
  persisted {r₁ r₂ : Run} : R r₁ r₂ → R r₁.persist r₂.persist

namespace Paired

theorem persist (hR : Paired R) :
    Matches R (modify Run.persist : RunStep PUnit) (modify Run.persist) :=
  matches_modify fun _ _ => hR.persisted

theorem onRecord (hR : Paired R) (f : RecordStep Unit) :
    Matches R (Run.onRecord f) (Run.onRecord f) := by
  intro r₁ r₂ h
  simp only [Run.onRecord, EStateM.run_bind, EStateM.run_get, hR.record h]
  cases f.run r₂.record with
  | ok u record => exact .ok _ (hR.recorded record h)
  | error e record => exact .error e (hR.recorded record h)

variable {x y : Executor}

theorem tick (hR : Paired R) (hclock : x.clock = y.clock) : Matches R x.tick y.tick := by
  intro r₁ r₂ h
  simp only [Executor.tick, EStateM.run_bind, EStateM.run_get, EStateM.run_modify, hclock,
    hR.ticks h]
  exact matches_liftExcept _ _ _ (hR.ticked _ h)

/-- Writing the record at the time of the clock. -/
theorem timed (hR : Paired R) (hclock : x.clock = y.clock) (f : Moment → RecordStep Unit)
    {k k' : RunStep α} (hk : Matches R k k') :
    Matches R (x.tick >>= fun t => Run.onRecord (f t) >>= fun _ => k)
      (y.tick >>= fun t => Run.onRecord (f t) >>= fun _ => k') :=
  matches_bind (hR.tick hclock) fun _ => matches_bind (hR.onRecord _) fun _ => hk

theorem failNode (hR : Paired R) (hclock : x.clock = y.clock) (n : Node) (e : Failure) :
    Matches R (x.failNode n e) (y.failNode n e) := by
  refine matches_bind (matches_liftExcept _) fun payload => ?_
  refine hR.timed hclock _ ?_
  refine matches_bind (matches_modify fun _ _ => hR.failed n.id payload) fun _ => ?_
  refine hR.timed hclock _ ?_
  exact matches_bind hR.persist fun _ => matches_throw e

end Paired

/-- What two steps of sessions come to is the same, and the runs go on side by side. -/
theorem matches_attempt {f g : SessionStep Unit}
    (hfg : ∀ r₁ r₂, R r₁ r₂ → Agree (fun s t => R (r₁.withSession s) (r₂.withSession t))
      (f.run r₁.session) (g.run r₂.session)) : Matches R (attempt f) (attempt g) := by
  intro r₁ r₂ h
  have hsteps := hfg r₁ r₂ h
  rw [attempt_run, attempt_run]
  generalize f.run r₁.session = r at hsteps ⊢
  generalize g.run r₂.session = r' at hsteps ⊢
  cases hsteps with
  | ok u h' => exact .ok _ h'
  | error e h' => exact .ok _ h'

end Run

namespace Executor

open Run

variable {R : Run → Run → Prop} {x y : Executor}

/-- The steps of two engines at a node come to the same. -/
def Pairs (x y : Executor) (R : Run → Run → Prop) : Prop :=
  ∀ n r₁ r₂, R r₁ r₂ → Agree (fun s t => R (r₁.withSession s) (r₂.withSession t))
    ((x.services.dispatch n).run r₁.session) ((y.services.dispatch n).run r₂.session)

theorem matches_visit (hR : Paired R) (hclock : x.clock = y.clock) (hxy : x.Pairs y R) (n : Node) :
    Matches R (x.visit n) (y.visit n) := by
  refine hR.timed hclock _ ?_
  refine matches_bind hR.persist fun _ => ?_
  refine matches_bind (matches_attempt (hxy n)) fun result => ?_
  cases result with
  | error e => exact hR.failNode hclock n e
  | ok u =>
    refine matches_get fun r₁ r₂ h => ?_
    rw [hR.snapshot h]
    exact hR.timed hclock _ hR.persist r₁ r₂ h

/-- Two runs over the same plan. -/
theorem matches_visitAll (hR : Paired R) (hclock : x.clock = y.clock) (hxy : x.Pairs y R)
    (order : List Node) : Matches R (x.visitAll order) (y.visitAll order) := by
  have hvisits : Matches R (order.forM x.visit) (order.forM y.visit) := by
    induction order with
    | nil => exact matches_pure _
    | cons n ns ih => exact matches_bind (matches_visit hR hclock hxy n) fun _ => ih
  refine hR.timed hclock _ ?_
  refine matches_bind hR.persist fun _ => ?_
  refine matches_bind hvisits fun _ => ?_
  exact hR.timed hclock _ hR.persist

end Executor

end BuildPipeline
