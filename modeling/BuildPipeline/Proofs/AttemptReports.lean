import BuildPipeline.Proofs.JsonLaws
import BuildPipeline.Proofs.Persistence
import BuildPipeline.Proofs.TrialLaws

/-! Reports about attempts.  Steps at nodes that differ in whether the attempts of a trigger are
reported do the same to every session, but for the reports that one of them adds to the log. -/

namespace BuildPipeline

/-- The field of a log entry that says which attempt it is about. -/
def attemptField : String := "attempt"

/-- Whether an entry reports an attempt. -/
def isReport (entry : Dict) : Bool := (Dict.field entry attemptField).isSome

/-- The entries of a log that report no attempt. -/
def otherEntries (es : List Dict) : List Dict := es.filter (!isReport ·)

theorem otherEntries_append (es fs : List Dict) :
    otherEntries (es ++ fs) = otherEntries es ++ otherEntries fs := List.filter_append ..

theorem otherEntries_eq_self {es : List Dict} (h : ∀ e ∈ es, isReport e = false) :
    otherEntries es = es :=
  List.filter_eq_self.2 fun e he => by simp [h e he]

namespace Context

theorem isReport_entry (c : Context) (node level message : Value) (more : Table String Value)
    (h : ∀ e ∈ more, e.1 ≠ attemptField) :
    isReport (c.entry node level message (Dict.of more)) = false := by
  rw [isReport, entry, Dict.field_union_of _ h]
  simp [Dict.of, Dict.field_cons, attemptField]

theorem isReport_event (c : Context) (node level message : Value) (event : RetryEvent) :
    isReport (c.entry node level message (Dict.of event.fields)) = true := by
  cases event <;> simp [isReport, entry, Dict.of, RetryEvent.fields, Table.union, Dict.field,
    Table.get?_insert, Scalar.str_beq, attemptField]

/-- A context without the reports about attempts. -/
def unreported (c : Context) : Context := c.withEvents (otherEntries c.events)

end Context

/-- A report of one of the attempts that a policy leaves after `n` calls, in the log of a run with a
name. -/
def Reports (p : RetryPolicy) (n : Nat) (entry : Dict) : Prop :=
  ∃ (c : Context) (id node : String) (event : RetryEvent), c.run.executionId = .str id
    ∧ event.attempt ≤ min p.attempts n ∧ entry
      = c.entry (.str node) (.str event.level) (.str event.message) (Dict.of event.fields)

variable {p : RetryPolicy}

theorem Reports.mono {n m : Nat} {entry : Dict} (h : Reports p n entry) (hnm : n ≤ m) :
    Reports p m entry := by
  obtain ⟨c, id, node, event, hid, hn, hentry⟩ := h
  exact ⟨c, id, node, event, hid, hn.trans (min_le_min_left _ hnm), hentry⟩

/-- A report can be written as long as the number of the attempt is not too long. -/
theorem Reports.writable {n : Nat} {entry : Dict} (h : Reports p n entry)
    (hn : min p.attempts n < 10 ^ Json.maxDigits) : Json.Writable (.dict entry) := by
  obtain ⟨c, id, node, event, hid, hle, rfl⟩ := h
  have hattempt : Json.Writable (.int event.attempt) := Json.writable_int (by simp; omega)
  have hfields : ∀ e ∈ event.fields, Json.Writable e.2 := by
    cases event <;> simp_all [RetryEvent.fields, RetryEvent.attempt, Json.writable_str,
      Json.writable_float]
  have hentry : c.entry (.str node) (.str event.level) (.str event.message) (Dict.of event.fields)
      = Dict.of ([("execution_id", .str id), ("node_id", .str node), ("level", .str event.level),
        ("message", .str event.message), ("timestamp", .str c.logTime.iso)] ++ event.fields) := by
    rw [Context.entry, hid]
    cases event <;> rfl
  rw [hentry]
  refine Json.writable_of fun e he => ?_
  rcases List.mem_append.1 he with he | he
  · simp only [List.mem_cons, List.not_mem_nil, or_false] at he
    rcases he with rfl | rfl | rfl | rfl | rfl <;> exact Json.writable_str _
  · exact hfields e he

/-- The entries of a log that report no attempt and no refused write. -/
def plainEntries (es : List Dict) : List Dict := ownEntries (otherEntries es)

theorem plainEntries_append (es fs : List Dict) :
    plainEntries (es ++ fs) = plainEntries es ++ plainEntries fs := by
  rw [plainEntries, otherEntries_append, ownEntries, List.filter_append]
  rfl

/-- A context without the entries about attempts and refused writes. -/
def Context.plain (c : Context) : Context := c.withEvents (plainEntries c.events)

/-- Contexts with the same plain entries differ in their logs alone. -/
theorem Context.eq_withEvents {c c' : Context} (h : c.plain = c'.plain) :
    c' = c.withEvents c'.events := by
  cases c
  cases c'
  simp only [plain, withEvents, Context.mk.injEq] at h ⊢
  simp [h]

/-- Contexts that are the same but for such entries stay so with the same entries added. -/
theorem Context.plain_added {c c' : Context} (h : c.plain = c'.plain) {es fs : List Dict}
    (hes : plainEntries es = plainEntries fs) :
    (c.withEvents (c.events ++ es)).plain = (c'.withEvents (c'.events ++ fs)).plain := by
  have hevents : plainEntries c.events = plainEntries c'.events := congrArg Context.events h
  rw [plain, plain, events_withEvents, events_withEvents, plainEntries_append, plainEntries_append,
    hevents, hes, eq_withEvents h]
  rfl

namespace Session

variable {α : Type} {exact : Prop} {calls : Nat} {s t : Session}

/-- Two sessions after `calls` calls or more, of which the first one reports attempts.  Unless they
are `exact`, the entries about refused writes may differ as well. -/
structure Alongside (p : RetryPolicy) (exact : Prop) (calls : Nat) (s t : Session) : Prop where
  journal : s.journal = t.journal
  context : s.context.plain = t.context.plain
  named : ∃ id, s.context.run.executionId = .str id
  reports : ∀ e ∈ s.context.events, isReport e = true → Reports p s.journal.calls.length e
  events : exact → otherEntries s.context.events = t.context.events
  calls : calls ≤ s.journal.calls.length

theorem Alongside.eq_withEvents (h : Alongside p exact calls s t) :
    t = s.withEvents t.context.events := by
  rw [withEvents, ← Context.eq_withEvents h.context, h.journal]

/-- Two logs that differ in reports may grow by entries that do. -/
theorem Alongside.logged (h : Alongside p exact calls s t) {j j' : Journal} {es fs : List Dict}
    (hjournal : j = j') (hcalls : s.journal.calls.length ≤ j.calls.length)
    (hplain : plainEntries es = plainEntries fs) (hexact : exact → otherEntries es = fs)
    (hreports : ∀ e ∈ es, isReport e = true → Reports p j.calls.length e) :
    Alongside p exact calls ⟨s.context.withEvents (s.context.events ++ es), j⟩
      ⟨t.context.withEvents (t.context.events ++ fs), j'⟩ where
  journal := hjournal
  context := Context.plain_added h.context hplain
  named := h.named
  reports e he hyes := by
    rcases List.mem_append.1 he with he | he
    · exact (h.reports e he hyes).mono hcalls
    · exact hreports e he hyes
  events hexact' := by
    simp only [Context.events_withEvents, otherEntries_append, h.events hexact', hexact hexact']
  calls := h.calls.trans hcalls

/-- They may also grow by entries about other things, which are the same unless they are about
refused writes. -/
theorem Alongside.told (h : Alongside p exact calls s t) {es fs : List Dict}
    (hes : ∀ e ∈ es, isReport e = false) (hplain : plainEntries es = plainEntries fs)
    (hexact : exact → es = fs) :
    Alongside p exact calls (s.withEvents (s.context.events ++ es))
      (t.withEvents (t.context.events ++ fs)) :=
  h.logged h.journal le_rfl hplain
    (fun hexact' => (otherEntries_eq_self hes).trans (hexact hexact'))
    fun e he hyes => absurd ((hes e he).symm.trans hyes) Bool.false_ne_true

theorem Alongside.said (h : Alongside p exact calls s t) (node level message : Value)
    {more : Table String Value} (hmore : ∀ e ∈ more, e.1 ≠ attemptField) :
    Alongside p exact calls
      (s.withEvents (s.context.events ++ [s.context.entry node level message (Dict.of more)]))
      (t.withEvents (t.context.events ++ [t.context.entry node level message (Dict.of more)])) := by
  have hentry : s.context.entry node level message (Dict.of more)
      = t.context.entry node level message (Dict.of more) := by
    rw [h.eq_withEvents]
    rfl
  refine h.told (fun e he => ?_) (congrArg (plainEntries [·]) hentry)
    fun _ => congrArg ([·]) hentry
  rw [List.mem_singleton.1 he]
  exact s.context.isReport_entry _ _ _ more hmore

/-- What is handed on may change in the same way. -/
theorem Alongside.changed (h : Alongside p exact calls s t) {f : Session → Session}
    (hrun : ∀ s, (f s).context.run = s.context.run) (hjournal : ∀ s, (f s).journal = s.journal)
    (hevents : ∀ s es, f (s.withEvents es) = (f s).withEvents es) :
    Alongside p exact calls (f s) (f t) := by
  have hself (s : Session) : (f s).context.events = s.context.events := by
    rw [← s.withEvents_events, hevents]
    rfl
  have ht : f t = (f s).withEvents t.context.events := by
    rw [← hevents, ← h.eq_withEvents]
  refine ⟨?_, ?_, ?_, ?_, ?_, ?_⟩
  · rw [hjournal, hjournal, h.journal]
  · have hentries := congrArg Context.events h.context
    rw [Context.plain, Context.plain, hself, ht]
    exact congrArg (Context.withEvents _) hentries
  · rw [hrun]
    exact h.named
  · rw [hself, hjournal]
    exact h.reports
  · rw [hself, hself]
    exact h.events
  · rw [hjournal]
    exact h.calls

/-- Steps may read the session as long as they do not look at the log. -/
theorem matches_read {k k' : Session → SessionStep α}
    (hk : ∀ s, Matches (Alongside p exact calls) (k s) (k' s))
    (hblind : ∀ s es, k' (s.withEvents es) = k' s) :
    Matches (Alongside p exact calls) (get >>= k) (get >>= k') := by
  refine matches_get fun s t h => ?_
  have hsame : k' t = k' s := by
    rw [h.eq_withEvents]
    exact hblind s _
  rw [hsame]
  exact hk s s t h

theorem matches_change {f : Session → Session}
    (hrun : ∀ s, (f s).context.run = s.context.run) (hjournal : ∀ s, (f s).journal = s.journal)
    (hevents : ∀ s es, f (s.withEvents es) = (f s).withEvents es) :
    Matches (Alongside p exact calls) (modify f : SessionStep PUnit) (modify f) :=
  matches_modify fun _ _ h => h.changed hrun hjournal hevents

theorem matches_log (node level message : String) {more : Table String Value}
    (hmore : ∀ e ∈ more, e.1 ≠ attemptField) :
    Matches (Alongside p exact calls) (Session.log node level message more)
      (Session.log node level message more) :=
  matches_modify fun _ _ h => h.said _ _ _ hmore

theorem matches_warn (node message : String) :
    Matches (Alongside p exact calls) (Session.warn node message) (Session.warn node message) := by
  intro s t h
  rw [warn_run, warn_run]
  have hchanged := h.changed (f := fun s => { s with context := { s.context with
      warnings := Table.modify s.context.warnings (.str node) [] (· ++ [.str message]) } })
    (fun _ => rfl) (fun _ => rfl) fun _ _ => rfl
  have hnone : ∀ e ∈ ([] : Table String Value), e.1 ≠ attemptField := by simp
  exact .ok () (hchanged.said (.str node) (.str "warning") (.str message) hnone)

/-- Entering a trial, with and without what is said about it. -/
theorem matches_settle (node : String) {t : Trial α}
    (ht : ∀ e ∈ t.events, e.attempt ≤ min p.attempts t.answers.length)
    (call : Except Failure α → Call) :
    Matches (Alongside p exact calls) (settle node t call) (settle node t.silent call) := by
  refine matches_bind (matches_modify fun s s' h => ?_) fun _ => matches_liftExcept _
  have hreports : ∀ e ∈ eventEntries s.context node t.events, isReport e = true := by
    intro e he
    obtain ⟨event, -, rfl⟩ := List.mem_map.1 he
    exact s.context.isReport_event _ _ _ event
  have hothers : otherEntries (eventEntries s.context node t.events) = [] :=
    List.filter_eq_nil_iff.2 fun e he => by simp [hreports e he]
  have hcalls : (s.journal.enter t call).calls.length
      = s.journal.calls.length + t.answers.length := by simp [Journal.enter]
  rw [logEvents_eq, logEvents_eq]
  refine h.logged (by rw [h.journal]; rfl) (by omega) ?_ (fun _ => hothers) fun e he _ => ?_
  · rw [plainEntries, hothers]
    rfl
  · obtain ⟨event, hevent, rfl⟩ := List.mem_map.1 he
    obtain ⟨id, hid⟩ := h.named
    refine ⟨s.context, id, node, event, hid, ?_, rfl⟩
    have := ht event hevent
    omega

end Session

namespace Services

open Session

variable {x y : Services} {exact : Prop} {calls : Nat}

/-- `x` tries its triggers again under a policy, those of `y` try again by themselves, and all else
is the same. -/
structure SamePolicy (p : RetryPolicy) (x y : Services) : Prop where
  policy : x.retry = some p
  none : y.retry = none
  build : y.buildTrigger = x.buildTrigger.retrying p
  deploy : y.deployTrigger = x.deployTrigger.retrying p
  settings : y.settings = x.settings
  random : y.random = x.random

variable (h : SamePolicy p x y)

include h

theorem SamePolicy.buildTrial (s : Session) (call : BuildCall) :
    y.buildTrial s call = (x.buildTrial s call).silent := by
  rw [Services.buildTrial, Services.buildTrial, h.none, h.policy, h.build, h.random,
    Trigger.ask_retrying]

theorem SamePolicy.deployTrial (s : Session) (call : DeployCall) :
    y.deployTrial s call = (x.deployTrial s call).silent := by
  rw [Services.deployTrial, Services.deployTrial, h.none, h.policy, h.deploy, h.random,
    Trigger.ask_retrying]

theorem SamePolicy.matches_startBuild (node : String) (call : BuildCall) :
    Matches (Alongside p exact calls) (x.startBuild node call) (y.startBuild node call) := by
  rw [startBuild_eq, startBuild_eq]
  refine matches_read (fun s => ?_) fun _ _ => rfl
  rw [h.buildTrial]
  refine matches_settle node ?_ _
  rw [Services.buildTrial, h.policy]
  exact Trigger.attempt_le_of_mem_ask _ _ _ _ _ _

theorem SamePolicy.matches_deploy (node : String) (call : DeployCall) :
    Matches (Alongside p exact calls) (x.deploy node call) (y.deploy node call) := by
  rw [deploy_eq, deploy_eq]
  refine matches_read (fun s => ?_) fun _ _ => rfl
  rw [h.deployTrial]
  refine matches_settle node ?_ _
  rw [Services.deployTrial, h.policy]
  exact Trigger.attempt_le_of_mem_ask _ _ _ _ _ _

theorem SamePolicy.matches_runBuild (n : Node) :
    Matches (Alongside p exact calls) (x.runBuild n) (y.runBuild n) := by
  rw [runBuild, runBuild, h.settings]
  refine matches_read (fun s => ?_) fun _ _ => rfl
  refine matches_bind (matches_liftExcept _) fun spec => ?_
  refine matches_bind (matches_liftExcept _) fun project => ?_
  refine matches_bind (matches_liftExcept _) fun env => ?_
  refine matches_bind (matches_log _ _ _ (by simp [attemptField])) fun _ => ?_
  refine matches_bind (h.matches_startBuild _ _) fun started => ?_
  refine matches_bind (matches_liftExcept _) fun r => ?_
  refine matches_bind (matches_change (fun _ => rfl) (fun _ => rfl) fun _ _ => rfl) fun _ => ?_
  exact matches_log _ _ _ (by simp [attemptField])

theorem SamePolicy.matches_runDeploy (n : Node) :
    Matches (Alongside p exact calls) (x.runDeploy n) (y.runDeploy n) := by
  rw [runDeploy_eq, runDeploy_eq]
  refine matches_read (fun s => ?_) fun _ _ => rfl
  split
  · refine matches_bind (matches_log _ _ _ (by simp [attemptField])) fun _ => ?_
    refine matches_bind (h.matches_deploy _ _) fun created => ?_
    refine matches_bind (matches_liftExcept _) fun id => ?_
    refine matches_bind (matches_change (fun _ => rfl) (fun _ => rfl) fun _ _ => rfl) fun _ => ?_
    exact matches_log _ _ _ (by simp [attemptField])
  · exact matches_throw _

/-- Both do the same at every node, but that only the first one reports attempts. -/
theorem SamePolicy.matches_dispatch (n : Node) :
    Matches (Alongside p exact calls) (x.dispatch n) (y.dispatch n) := by
  rw [dispatch, dispatch]
  split
  case h_1 | h_2 | h_3 => exact matches_log _ _ _ (by simp)
  case h_4 | h_5 | h_6 => exact h.matches_runBuild n
  case h_7 => exact h.matches_runDeploy n
  all_goals exact matches_warn _ _

end Services

end BuildPipeline
