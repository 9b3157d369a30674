import BuildPipeline.Proofs.NodeSteps

/-! Laws of runs.  A property that reading the clock and writing the record, the log and the store
keep holds all along a run as soon as the steps at its nodes keep it; what holds of a run under way
and what holds of one that has broken off may differ. -/

namespace BuildPipeline

open BuildPipeline.Time

section State

variable {ε σ α : Type}

/-- A result whose state satisfies `Q` with its value, or `E` if it is a failure. -/
def Ends (Q : α → σ → Prop) (E : σ → Prop) : EStateM.Result ε σ α → Prop
  | .ok a s => Q a s
  | .error _ s => E s

theorem Ends.stateOf {Q : α → σ → Prop} {E P : σ → Prop} {r : EStateM.Result ε σ α}
    (h : Ends Q E r) (hQ : ∀ a s, Q a s → P s) (hE : ∀ s, E s → P s) : P (stateOf r) := by
  cases r with
  | ok a s => exact hQ a s h
  | error e s => exact hE s h

end State

namespace Run

variable {α β : Type} {P P' E : Run → Prop} {Q : α → Run → Prop} {R : β → Run → Prop}

/-- From runs that satisfy `P`, a step leads to such that satisfy `Q`, or `E` if it fails. -/
def Leads (P : Run → Prop) (f : RunStep α) (Q : α → Run → Prop) (E : Run → Prop) : Prop :=
  ∀ r, P r → Ends Q E (f.run r)

theorem leads_throw {e : Failure} : Leads E (throw e) Q E := fun _ h => h

theorem leads_liftExcept (h : ∀ r, P r → E r) (x : Except Failure α) :
    Leads P (liftExcept x) (fun _ => P) E := by
  cases x with
  | ok a => exact fun _ hr => hr
  | error e => exact h

theorem leads_modify {h : Run → Run} (hh : ∀ r, P r → P' (h r)) :
    Leads P (modify h) (fun _ => P') E := hh

theorem leads_bind {f : RunStep α} {k : α → RunStep β} (hf : Leads P f Q E)
    (hk : ∀ a, Leads (Q a) (k a) R E) : Leads P (f >>= k) R E := by
  intro r h
  have hr := hf r h
  rw [EStateM.run_bind]
  cases hfr : f.run r with
  | ok a t =>
    rw [hfr] at hr
    exact hk a t hr
  | error e t =>
    rw [hfr] at hr
    exact hr

theorem leads_get {k : Run → RunStep α} (hk : ∀ r, Leads P (k r) Q E) :
    Leads P (get >>= k) Q E :=
  fun r h => hk r r h

theorem Leads.weaken {f : RunStep α} (h : Leads P f Q E) {E' : Run → Prop}
    (hE : ∀ r, E r → E' r) : Leads P f Q E' := by
  intro r hr
  have hfr := h r hr
  cases hf : f.run r with
  | ok a t =>
    rw [hf] at hfr
    exact hfr
  | error e t =>
    rw [hf] at hfr
    exact hE t hfr

/-- What a node may change of a run. -/
def session (r : Run) : Session := ⟨r.context, r.world.journal⟩

def withSession (r : Run) (s : Session) : Run :=
  { r with context := s.context, world := { r.world with journal := s.journal } }

theorem attempt_run (f : SessionStep Unit) (r : Run) :
    (attempt f).run r = match f.run r.session with
      | .ok _ s => .ok (.ok ()) (r.withSession s)
      | .error e s => .ok (.error e) (r.withSession s) := by
  simp only [attempt, session, EStateM.run_bind, EStateM.run_get]
  cases f.run ⟨r.context, r.world.journal⟩ <;> rfl

theorem leads_attempt {f : SessionStep Unit}
    (hf : ∀ r, P r →
      Ends (fun _ s => P (r.withSession s)) (fun s => E (r.withSession s)) (f.run r.session)) :
    Leads P (attempt f) (fun | .ok _ => P | .error _ => E) E := by
  intro r h
  have hr := hf r h
  rw [attempt_run]
  cases hfr : f.run r.session with
  | ok u s =>
    rw [hfr] at hr
    exact hr
  | error e s =>
    rw [hfr] at hr
    exact hr

theorem leads_onRecord (hrecorded : ∀ r record, P r → P { r with record }) (hPE : ∀ r, P r → E r)
    (f : RecordStep Unit) : Leads P (Run.onRecord f) (fun _ => P) E := by
  intro r h
  simp only [Run.onRecord, EStateM.run_bind, EStateM.run_get]
  cases f.run r.record with
  | ok u record => exact hrecorded r record h
  | error e record => exact hPE _ (hrecorded r record h)

theorem leads_tick
    (hticked : ∀ r, P r → P { r with world := { r.world with ticks := r.world.ticks + 1 } })
    (hPE : ∀ r, P r → E r) (x : Executor) : Leads P x.tick (fun _ => P) E := by
  intro r h
  simp only [Executor.tick, EStateM.run_bind, EStateM.run_get, EStateM.run_modify]
  exact leads_liftExcept hPE _ _ (hticked r h)

/-- The outcome of putting the record into the store. -/
def filingResult (r : Run) : EStateM.Result StoreError Store Unit :=
  (Store.put executionsCollection r.id (.dict r.document.document)).run r.world.store

/-- What the log says of a write. -/
def refusal (c : Context) : EStateM.Result StoreError Store Unit → List Dict
  | .ok _ _ => []
  | .error e _ => [c.entry (.str engineName) (.str "warning")
    (.str ("Failed to persist execution record: " ++ e.message))
    (Dict.of [(failureField, .str e.kind)])]

theorem persist_eq (r : Run) : r.persist = { r with
    context := r.context.withEvents (r.context.events ++ refusal r.context r.filingResult)
    world := { r.world with
      store := stateOf r.filingResult
      filed := r.world.filed ++ [⟨executionsCollection, r.id, r.document⟩] } } := by
  rw [persist, filingResult]
  cases (Store.put executionsCollection r.id (.dict r.document.document)).run r.world.store with
  | ok u store => simp [refusal, stateOf]
  | error e store => rfl

theorem persist_session (r : Run) :
    r.context.Extends r.persist.context ∧ r.persist.world.journal = r.world.journal
      ∧ r.persist.world.filed
        = r.world.filed ++ [⟨executionsCollection, r.id, r.document⟩] := by
  rw [persist]
  split
  · exact ⟨.refl _, rfl, rfl⟩
  · exact ⟨(Context.Extends.refl _).log _ _ _ _, rfl, rfl⟩

/-- What was filed after `filed` are documents of the kind `D`. -/
def FiledSince (filed : List Filing) (D : RunDocument → Prop) (r : Run) : Prop :=
  ∃ more, r.world.filed = filed ++ more ∧ ∀ f ∈ more, D f.document

theorem FiledSince.persist {filed : List Filing} {D : RunDocument → Prop} {r : Run}
    (h : r.FiledSince filed D) (hd : D r.document) : r.persist.FiledSince filed D := by
  obtain ⟨more, hmore, hall⟩ := h
  obtain ⟨-, -, hfiled⟩ := r.persist_session
  refine ⟨more ++ [⟨executionsCollection, r.id, r.document⟩], ?_, fun f hf => ?_⟩
  · rw [hfiled, hmore, List.append_assoc]
  · rcases List.mem_append.1 hf with hf | hf
    · exact hall f hf
    · rw [List.mem_singleton.1 hf]
      exact hd

/-- A property that all steps of a run keep but for those at its nodes. -/
structure Framed (P : Run → Prop) : Prop where
  ticked {r : Run} : P r → P { r with world := { r.world with ticks := r.world.ticks + 1 } }
  recorded {r : Run} (record : Record) : P r → P { r with record }
  logged {r : Run} (node level : String) (message : Value) {more : Table String Value} :
    (∀ e ∈ more, e.1 ≠ failureField) → P r → P (r.log node level message more)
  persisted {r : Run} : P r → P r.persist

namespace Framed

theorem persist (hP : Framed P) : Leads P (modify Run.persist) (fun _ => P) E :=
  leads_modify fun _ => hP.persisted

theorem onRecord (hP : Framed P) (hPE : ∀ r, P r → E r) (f : RecordStep Unit) :
    Leads P (Run.onRecord f) (fun _ => P) E :=
  leads_onRecord (fun _ record => hP.recorded record) hPE f

theorem tick (hP : Framed P) (hPE : ∀ r, P r → E r) (x : Executor) :
    Leads P x.tick (fun _ => P) E :=
  leads_tick (fun _ => hP.ticked) hPE x

/-- Writing the record at the time of the clock. -/
theorem timed (hP : Framed P) (hPE : ∀ r, P r → E r) (x : Executor)
    (f : Moment → RecordStep Unit) {k : RunStep β} (hk : Leads P k R E) :
    Leads P (x.tick >>= fun t => Run.onRecord (f t) >>= fun _ => k) R E :=
  leads_bind (hP.tick hPE x) fun _ => leads_bind (hP.onRecord hPE _) fun _ => hk

theorem failNode (hE : Framed E) (x : Executor) (n : Node) (e : Failure) {Q : Unit → Run → Prop} :
    Leads E (x.failNode n e) Q E := by
  have hself : ∀ r, E r → E r := fun _ h => h
  refine leads_bind (leads_liftExcept hself _) fun payload => ?_
  refine hE.timed hself x _ ?_
  refine leads_bind (leads_modify fun _ => hE.logged _ _ _ (by simp [failureField])) fun _ => ?_
  refine hE.timed hself x _ ?_
  exact leads_bind hE.persist fun _ => leads_throw

end Framed

end Run

namespace Executor

open Run

variable {x : Executor} {P E : Run → Prop}

/-- A context that is opened has what a fresh one has and warnings keep. -/
theorem openContext_spec (x : Executor) (run : RunIdentity) (p : Plan) {P : Context → Prop}
    (hstart : P (.start run x.logTime))
    (hwarned : ∀ c node message, P c → P (c.warned node message)) :
    ∃ c, x.openContext run p = .ok c ∧ P c := by
  rw [openContext]
  generalize Context.start run x.logTime = c at hstart ⊢
  induction p.warnings generalizing c with
  | nil => exact ⟨c, rfl, hstart⟩
  | cons w ws ih => exact ih (c.warned w.1 w.2) (hwarned c w.1 w.2 hstart)

/-- The steps at the nodes keep `P` as long as they succeed, and leave `E` when they fail. -/
def Carries (x : Executor) (P E : Run → Prop) : Prop :=
  ∀ n r, P r → Ends (fun _ s => P (r.withSession s)) (fun s => E (r.withSession s))
    ((x.services.dispatch n).run r.session)

theorem leads_visit (hP : Framed P) (hE : Framed E) (hPE : ∀ r, P r → E r) (hx : x.Carries P E)
    (n : Node) : Leads P (x.visit n) (fun _ => P) E := by
  refine hP.timed hPE x _ ?_
  refine leads_bind hP.persist fun _ => ?_
  refine leads_bind (leads_attempt (hx n)) fun result => ?_
  cases result with
  | error e => exact hE.failNode x n e
  | ok u => exact leads_get fun r => hP.timed hPE x _ hP.persist

theorem leads_visits (hP : Framed P) (hE : Framed E) (hPE : ∀ r, P r → E r) (hx : x.Carries P E)
    (order : List Node) : Leads P (order.forM x.visit) (fun _ => P) E := by
  induction order with
  | nil => exact fun _ h => h
  | cons n ns ih => exact leads_bind (leads_visit hP hE hPE hx n) fun _ => ih

/-- A run that satisfies `P₀` until the record is put into the store for the first time. -/
theorem leads_visitAll_of {P₀ E' : Run → Prop}
    (hticked : ∀ r, P₀ r → P₀ { r with world := { r.world with ticks := r.world.ticks + 1 } })
    (hrecorded : ∀ r record, P₀ r → P₀ { r with record }) (hpersist : ∀ r, P₀ r → P r.persist)
    (hopen : ∀ r, P₀ r → E' r) (hP : Framed P) (hE : Framed E) (hPE : ∀ r, P r → E r)
    (hx : x.Carries P E) (hEE' : ∀ r, E r → E' r) (order : List Node) :
    Leads P₀ (x.visitAll order) (fun _ => P) E' := by
  refine leads_bind (leads_tick hticked hopen x) fun time => ?_
  refine leads_bind (leads_onRecord hrecorded hopen _) fun _ => ?_
  refine leads_bind (leads_modify hpersist) fun _ => Leads.weaken ?_ hEE'
  refine leads_bind (leads_visits hP hE hPE hx order) fun _ => ?_
  exact hP.timed hPE x _ hP.persist

theorem leads_visitAll (hP : Framed P) (hE : Framed E) (hPE : ∀ r, P r → E r) (hx : x.Carries P E)
    (order : List Node) : Leads P (x.visitAll order) (fun _ => P) E :=
  leads_visitAll_of (fun _ => hP.ticked) (fun _ record => hP.recorded record)
    (fun _ => hP.persisted) hPE hP hE hPE hx (fun _ h => h) order

end Executor

end BuildPipeline
