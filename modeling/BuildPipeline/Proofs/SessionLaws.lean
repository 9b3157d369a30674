import BuildPipeline.Engine.Run
import BuildPipeline.Proofs.DocumentLaws

/-! Laws of sessions.  A step at a node reads nothing of the log: it adds the same entries to every
log, and never an entry of the kind that a refused write leaves. -/

namespace BuildPipeline

/-- The field of a log entry that says how a write failed. -/
def failureField : String := "exc_type"

/-- Whether the engine logged an entry because the store refused a write. -/
def isFilingFailure (entry : Dict) : Bool :=
  Dict.field entry "node_id" == some (.str engineName) && (Dict.field entry failureField).isSome

namespace Context

def withEvents (c : Context) (es : List Dict) : Context := { c with events := es }

@[simp] theorem withEvents_withEvents (c : Context) (es fs : List Dict) :
    (c.withEvents es).withEvents fs = c.withEvents fs := rfl

@[simp] theorem withEvents_events (c : Context) : c.withEvents c.events = c := rfl

@[simp] theorem events_withEvents (c : Context) (es : List Dict) : (c.withEvents es).events = es := rfl

@[simp] theorem snapshot_withEvents (c : Context) (es : List Dict) :
    (c.withEvents es).snapshot = c.snapshot := rfl

/-- The entry that `log` adds. -/
def entry (c : Context) (node level message : Value) (more : Dict) : Dict :=
  Table.union (Dict.of [
    ("execution_id", c.run.executionId),
    ("node_id", node),
    ("level", level),
    ("message", message),
    ("timestamp", .str c.logTime.iso)]) more

theorem log_eq (c : Context) (node level message : Value) (more : Dict) :
    c.log node level message more
      = c.withEvents (c.events ++ [c.entry node level message more]) := rfl

theorem isFilingFailure_entry (c : Context) (node level message : Value)
    (more : Table String Value) (h : ∀ e ∈ more, e.1 ≠ failureField) :
    isFilingFailure (c.entry node level message (Dict.of more)) = false := by
  have hnone : Dict.field (c.entry node level message (Dict.of more)) failureField = none := by
    rw [entry, Dict.field_union_of _ h]
    simp [Dict.of, Dict.field_cons, failureField]
  simp [isFilingFailure, hnone]

/-- A context with one more warning. -/
def warned (c : Context) (node message : String) : Context :=
  { c with
    warnings := Table.modify c.warnings (.str node) [] (· ++ [.str message])
    events := c.events ++ [c.entry (.str node) (.str "warning") (.str message) []] }

end Context

section State

variable {ε σ α : Type}

/-- Changes the state of a result. -/
def overState (h : σ → σ) : EStateM.Result ε σ α → EStateM.Result ε σ α
  | .ok a s => .ok a (h s)
  | .error e s => .error e (h s)

def stateOf : EStateM.Result ε σ α → σ
  | .ok _ s => s
  | .error _ s => s

end State

namespace Session

def withEvents (s : Session) (es : List Dict) : Session :=
  { s with context := s.context.withEvents es }

@[simp] theorem withEvents_withEvents (s : Session) (es fs : List Dict) :
    (s.withEvents es).withEvents fs = s.withEvents fs := rfl

@[simp] theorem withEvents_events (s : Session) : s.withEvents s.context.events = s := rfl

/-- A step that adds the same entries to every log. -/
def Appends {α : Type} (f : SessionStep α) : Prop :=
  ∀ s, ∃ added : List Dict, (∀ e ∈ added, isFilingFailure e = false) ∧
    ∀ es, f.run (s.withEvents es) = overState (·.withEvents (es ++ added)) (f.run s)

section Steps

variable {α β : Type}

theorem appends_pure (a : α) : Appends (pure a) := by
  intro s
  refine ⟨[], by simp, fun es => ?_⟩
  simp [overState]

theorem appends_throw (e : Failure) : Appends (throw e : SessionStep α) := by
  intro s
  refine ⟨[], by simp, fun es => ?_⟩
  rw [List.append_nil]
  rfl

theorem appends_liftExcept (x : Except Failure α) : Appends (liftExcept x) := by
  cases x with
  | ok a => exact appends_pure a
  | error e => exact appends_throw e

theorem appends_modify {h : Session → Session} (added : Session → List Dict)
    (hq : ∀ s, ∀ e ∈ added s, isFilingFailure e = false)
    (hh : ∀ s es, h (s.withEvents es) = (h s).withEvents (es ++ added s)) :
    Appends (modify h) := by
  intro s
  refine ⟨added s, hq s, fun es => ?_⟩
  simp [overState, hh]

theorem appends_bind {f : SessionStep α} {k : α → SessionStep β} (hf : Appends f)
    (hk : ∀ a, Appends (k a)) : Appends (f >>= k) := by
  intro s
  obtain ⟨added, hq, hrun⟩ := hf s
  cases hr : f.run s with
  | error e t =>
    refine ⟨added, hq, fun es => ?_⟩
    simp [hrun, hr, overState]
  | ok a t =>
    obtain ⟨more, hq', hrun'⟩ := hk a t
    refine ⟨added ++ more, ?_, fun es => ?_⟩
    · intro e he
      exact (List.mem_append.1 he).elim (hq e) (hq' e)
    · simp [hrun, hr, overState, hrun']

/-- A step may read the session as long as it does not look at the log. -/
theorem appends_get {k : Session → SessionStep α} (hk : ∀ s, Appends (k s))
    (hb : ∀ s es, k (s.withEvents es) = k s) : Appends (get >>= k) := by
  intro s
  obtain ⟨added, hq, hrun⟩ := hk s s
  refine ⟨added, hq, fun es => ?_⟩
  simp [hb, hrun]

theorem appends_log (node level message : String) {more : Table String Value}
    (h : ∀ e ∈ more, e.1 ≠ failureField) : Appends (Session.log node level message more) := by
  refine appends_modify
    (fun s => [s.context.entry (.str node) (.str level) (.str message) (Dict.of more)]) ?_ ?_
  · intro s e he
    rw [List.mem_singleton.1 he]
    exact Context.isFilingFailure_entry _ _ _ _ _ h
  · intro s es
    rfl

theorem warn_run (node message : String) (s : Session) :
    (Session.warn node message).run s
      = .ok () { s with context := s.context.warned node message } := rfl

theorem appends_warn (node message : String) : Appends (Session.warn node message) := by
  intro s
  refine ⟨[s.context.entry (.str node) (.str "warning") (.str message) []], ?_, fun es => rfl⟩
  intro e he
  rw [List.mem_singleton.1 he]
  exact Context.isFilingFailure_entry s.context _ _ _ [] (by simp)

/-- The entries that `logEvents` adds. -/
def eventEntries (c : Context) (node : String) (events : List RetryEvent) : List Dict :=
  events.map fun e => c.entry (.str node) (.str e.level) (.str e.message) (Dict.of e.fields)

theorem logEvents_eq (c : Context) (node : String) (events : List RetryEvent) :
    Session.logEvents c node events = c.withEvents (c.events ++ eventEntries c node events) := by
  rw [Session.logEvents]
  induction events generalizing c with
  | nil => simp [eventEntries]
  | cons e events ih =>
    rw [List.foldl_cons, ih, Context.log_eq]
    simp [eventEntries, Context.entry, Context.withEvents]

theorem RetryEvent.fields_ne (e : RetryEvent) : ∀ f ∈ e.fields, f.1 ≠ failureField := by
  cases e <;> simp [RetryEvent.fields, failureField]

theorem appends_settle (node : String) (t : Trial α) (call : Except Failure α → Call) :
    Appends (Session.settle node t call) := by
  refine appends_bind ?_ fun _ => appends_liftExcept _
  refine appends_modify (fun s => eventEntries s.context node t.events) ?_ ?_
  · intro s e he
    obtain ⟨r, -, rfl⟩ := List.mem_map.1 he
    exact Context.isFilingFailure_entry _ _ _ _ _ (RetryEvent.fields_ne r)
  · intro s es
    rw [logEvents_eq, logEvents_eq]
    rfl

end Steps

end Session

namespace Services

open Session

theorem appends_startBuild (x : Services) (node : String) (call : BuildCall) :
    Appends (x.startBuild node call) :=
  appends_get (fun _ => appends_settle _ _ _) fun _ _ => rfl

theorem appends_deploy (x : Services) (node : String) (call : DeployCall) :
    Appends (x.deploy node call) :=
  appends_get (fun _ => appends_settle _ _ _) fun _ _ => rfl

theorem appends_runBuild (x : Services) (n : Node) : Appends (x.runBuild n) := by
  refine appends_get (fun s => ?_) fun _ _ => rfl
  refine appends_bind (appends_liftExcept _) fun spec => ?_
  refine appends_bind (appends_liftExcept _) fun project => ?_
  refine appends_bind (appends_liftExcept _) fun env => ?_
  refine appends_bind (appends_log _ _ _ (by simp [failureField])) fun _ => ?_
  refine appends_bind (appends_startBuild x _ _) fun started => ?_
  refine appends_bind (appends_liftExcept _) fun r => ?_
  refine appends_bind (appends_modify (fun _ => []) (by simp) fun _ _ => ?_) fun _ => ?_
  · rw [List.append_nil]
    rfl
  · exact appends_log _ _ _ (by simp [failureField])

/-- A deploy node once there is a build. -/
def deployBuild (x : Services) (n : Node) (build : Value) : SessionStep Unit := do
  Session.log n.id "info" "Executing deploy node" [("build_id", build)]
  let created ← x.deploy n.id ⟨build, .ofFields n.data⟩
  let id ← liftExcept ((requireDeploymentId created build).mapError Failure.report)
  modify fun s => { s with context := { s.context with deploymentId := .str id } }
  Session.log n.id "info" "Deployment created" [("deployment_id", .str id)]

theorem runDeploy_eq (x : Services) (n : Node) :
    x.runDeploy n = get >>= fun s =>
      if s.context.buildId.truthy then x.deployBuild n s.context.buildId
      else throw (.report (.missingBuildId (.str n.id))) := by
  refine congrArg (get >>= ·) (funext fun s => ?_)
  by_cases hb : s.context.buildId.truthy
  · rw [if_pos hb]
    simp only [hb]
    rfl
  · rw [if_neg hb]
    simp only [hb]
    rfl

theorem appends_runDeploy (x : Services) (n : Node) : Appends (x.runDeploy n) := by
  rw [runDeploy_eq]
  refine appends_get (fun s => ?_) fun _ _ => rfl
  split
  · refine appends_bind (appends_log _ _ _ (by simp [failureField])) fun _ => ?_
    refine appends_bind (appends_deploy x _ _) fun created => ?_
    refine appends_bind (appends_liftExcept _) fun id => ?_
    refine appends_bind (appends_modify (fun _ => []) (by simp) fun _ _ => ?_) fun _ => ?_
    · rw [List.append_nil]
      rfl
    · exact appends_log _ _ _ (by simp [failureField])
  · exact appends_throw _

theorem appends_dispatch (x : Services) (n : Node) : Appends (x.dispatch n) := by
  rw [dispatch]
  split
  · exact appends_log _ _ _ (by simp)
  · exact appends_log _ _ _ (by simp)
  · exact appends_log _ _ _ (by simp)
  · exact appends_runBuild x n
  · exact appends_runBuild x n
  · exact appends_runBuild x n
  · exact appends_runDeploy x n
  all_goals exact appends_warn _ _

end Services

end BuildPipeline
