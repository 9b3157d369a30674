import BuildPipeline.Proofs.AttemptReports
import BuildPipeline.Proofs.Persistence

/-! Two ways of trying again.  An engine that tries its triggers again under a policy and an engine
whose triggers try again by themselves run alike: they differ in the reports about attempts that
the first one leaves in its log. -/

namespace BuildPipeline

variable {p : RetryPolicy}

section Written

/-- A document of a run without the reports about attempts. -/
def RunDocument.unreported (d : RunDocument) : RunDocument := { d with log := otherEntries d.log }

def Filing.unreported (f : Filing) : Filing := { f with document := f.document.unreported }

/-- Reports that can be written do not matter to whether a document can be. -/
theorem RunDocument.verdict_unreported (d : RunDocument)
    (h : ∀ e ∈ d.log, isReport e = true → Json.Writable (.dict e)) :
    Json.verdict (Json.write .indented (.dict d.unreported.document))
      = Json.verdict (Json.write .indented (.dict d.document)) := by
  have hlog : Json.verdict (Json.encode .indented 1 (.list (d.unreported.log.map .dict)))
      = Json.verdict (Json.encode .indented 1 (.list (d.log.map .dict))) := by
    rw [Json.verdict_encode_list, Json.verdict_encode_list, List.forM_map, List.forM_map]
    refine Json.forM_filter fun e he hother => h e he (by simpa using hother) _ _
  have hdocument (d : RunDocument) : d.document = Dict.of [
      ("execution", .dict d.record.execution),
      ("nodes", .ofTable (d.record.nodes.mapValues .dict)),
      ("events", .list (d.record.events.map .dict)),
      ("context", .dict d.snapshot),
      ("warnings", .dict (d.warnings.mapValues .list)),
      ("log", .list (d.log.map .dict))] := rfl
  have hwrite (v : Value) : Json.verdict (Json.write .indented v)
      = Json.verdict (Json.encode .indented 0 v) := by
    rw [Json.write]
    cases Json.encode .indented 0 v <;> rfl
  rw [hwrite, hwrite, hdocument, hdocument, Json.verdict_encode_of, Json.verdict_encode_of]
  simp only [Table.mapValues, List.map_cons, List.map_nil, Nat.zero_add, hlog]
  rfl

end Written

namespace Store

/-- Whether a store keeps its documents in memory. -/
def InMemory (s : Store) : Prop := ∃ m, s.backing = .memory m

/-- Two stores that take and refuse the same writes. -/
structure Alike (s t : Store) : Prop where
  puts : s.puts = t.puts
  refuses : s.refuses = t.refuses
  backing : (∃ m m', s.backing = .memory m ∧ t.backing = .memory m')
    ∨ ∃ d d', s.backing = .directory d ∧ t.backing = .directory d'

theorem Alike.refl (s : Store) : s.Alike s := by
  refine ⟨rfl, rfl, ?_⟩
  cases h : s.backing with
  | memory m => exact .inl ⟨m, m, rfl, rfl⟩
  | directory d => exact .inr ⟨d, d, rfl, rfl⟩

/-- What becomes of a write to files depends on its names and on whether the document can be
written. -/
theorem verdict_put (d : DirectoryStore) (c k : String) (v : Value) :
    Json.verdict (d.put c k v) = (do
      DirectoryStore.checkName c
      DirectoryStore.checkName k
      (Json.verdict (Json.write .indented v)).mapError .writing) := by
  rw [DirectoryStore.put, DirectoryStore.place]
  cases DirectoryStore.checkName c <;> cases DirectoryStore.checkName k <;>
    cases Json.write .indented v <;> rfl

/-- Two documents of which both or none can be written come to the same in two stores that are
alike. -/
theorem Alike.put {s t : Store} (h : s.Alike t) (c k : String) {v w : Value}
    (hvw : s.InMemory ∨
      Json.verdict (Json.write .indented v) = Json.verdict (Json.write .indented w)) :
    Agree Alike ((Store.put c k v).run s) ((Store.put c k w).run t) := by
  rw [put_run, put_run, ← h.puts, ← h.refuses]
  split
  · exact .error _ ⟨rfl, rfl, h.backing⟩
  · rcases h.backing with ⟨m, m', hm, hm'⟩ | ⟨d, d', hd, hd'⟩
    · rw [hm, hm']
      exact .ok _ ⟨rfl, rfl, .inl ⟨_, _, rfl, rfl⟩⟩
    · have hverdict := hvw.resolve_left fun ⟨_, hm⟩ => nomatch hd.symm.trans hm
      have hput : Json.verdict (d.put c k v) = Json.verdict (d'.put c k w) := by
        rw [verdict_put, verdict_put, hverdict]
      simp only [hd, hd', Backing.put]
      rcases Json.cases_of_verdict hput with ⟨e, e', he, he'⟩ | ⟨e, he, he'⟩
      · rw [he, he']
        exact .ok _ ⟨rfl, rfl, .inr ⟨_, _, rfl, rfl⟩⟩
      · rw [he, he']
        exact .error _ ⟨rfl, rfl, .inr ⟨_, _, rfl, rfl⟩⟩

/-- Writing does not change the kind of a store. -/
theorem InMemory.put {s : Store} (h : s.InMemory) (c k : String) (v : Value) :
    (stateOf ((Store.put c k v).run s)).InMemory := by
  obtain ⟨m, hm⟩ := h
  rw [put_run, hm]
  split
  · exact ⟨m, rfl⟩
  · exact ⟨_, rfl⟩

end Store

/-- Reports are no trouble to a run from `w` to `w'`: documents stay in memory, or there are not so
many attempts that the number of one could not be written. -/
def ReportsFit (p : RetryPolicy) (w w' : World) : Prop :=
  w.store.InMemory ∨ min p.attempts w'.journal.calls.length < 10 ^ Json.maxDigits

namespace Run

theorem isReport_refusal (c : Context) (result : EStateM.Result StoreError Store Unit) :
    ∀ e ∈ refusal c result, isReport e = false := by
  intro e he
  cases result with
  | ok u s => cases he
  | error e' s =>
    rw [List.mem_singleton.1 he]
    exact c.isReport_entry _ _ _ [(failureField, .str e'.kind)]
      (by simp [failureField, attemptField])

theorem plainEntries_refusal (c : Context) (result : EStateM.Result StoreError Store Unit) :
    plainEntries (refusal c result) = [] := by
  rw [plainEntries, otherEntries_eq_self (isReport_refusal c result), ownEntries_refusal]

theorem refusal_congr {c c' : Context} (hrun : c'.run = c.run) (htime : c'.logTime = c.logTime)
    {result result' : EStateM.Result StoreError Store Unit} (h : Agree Store.Alike result result') :
    refusal c' result' = refusal c result := by
  cases h with
  | ok u h => rfl
  | error e h => simp only [refusal, Context.entry, hrun, htime]

/-- Two runs from `w` of which the first one reports attempts.  Unless the reports fit, what becomes
of writes may differ as well. -/
structure Alongside (p : RetryPolicy) (w : World) (r₁ r₂ : Run) : Prop where
  id : r₁.id = r₂.id
  record : r₁.record = r₂.record
  ticks : r₁.world.ticks = r₂.world.ticks
  issued : r₁.world.issued = r₂.world.issued
  session : Session.Alongside p (ReportsFit p w r₁.world) 0 r₁.session r₂.session
  memory : w.store.InMemory → r₁.world.store.InMemory
  store : ReportsFit p w r₁.world → r₁.world.store.Alike r₂.world.store
  filed : ReportsFit p w r₁.world →
    ∃ f, r₁.world.filed = w.filed ++ f ∧ r₂.world.filed = w.filed ++ f.map Filing.unreported

variable {w : World} {r₁ r₂ : Run}

theorem Alongside.context (h : Alongside p w r₁ r₂) :
    r₂.context = r₁.context.withEvents r₂.context.events :=
  Context.eq_withEvents h.session.context

theorem Alongside.document (h : Alongside p w r₁ r₂) (hfit : ReportsFit p w r₁.world) :
    r₂.document = r₁.document.unreported := by
  have hevents : otherEntries r₁.context.events = r₂.context.events := h.session.events hfit
  have hsnapshot : r₂.context.snapshot = r₁.context.snapshot := by rw [h.context]; rfl
  have hwarnings : r₂.context.warnings = r₁.context.warnings := by rw [h.context]; rfl
  simp only [Run.document, RunDocument.unreported, h.record, hsnapshot, hwarnings, hevents]

theorem Alongside.filingResult (h : Alongside p w r₁ r₂) (hfit : ReportsFit p w r₁.world) :
    Agree Store.Alike r₁.filingResult r₂.filingResult := by
  rw [Run.filingResult, Run.filingResult, h.document hfit, h.id]
  refine (h.store hfit).put _ _ (hfit.imp h.memory fun hcalls => ?_)
  exact (r₁.document.verdict_unreported fun e he hreport =>
    (h.session.reports e he hreport).writable hcalls).symm

theorem paired_alongside : Paired (Alongside p w) where
  ticks h := h.ticks
  record h := h.record
  snapshot {r₁ r₂} h := by
    rw [h.context]
    rfl
  ticked ticks h := ⟨h.id, h.record, rfl, h.issued, h.session, h.memory, h.store, h.filed⟩
  recorded record h := ⟨h.id, rfl, h.ticks, h.issued, h.session, h.memory, h.store, h.filed⟩
  failed node payload h := ⟨h.id, h.record, h.ticks, h.issued,
    h.session.said _ _ _ (by simp [attemptField]), h.memory, h.store, h.filed⟩
  persisted {r₁ r₂} h := by
    have hrun : r₂.context.run = r₁.context.run := by rw [h.context]; rfl
    have htime : r₂.context.logTime = r₁.context.logTime := by rw [h.context]; rfl
    rw [persist_eq r₁, persist_eq r₂]
    refine ⟨h.id, h.record, h.ticks, h.issued, ?_, fun hmemory => (h.memory hmemory).put _ _ _,
      fun hfit => (h.filingResult hfit).stateOf, fun hfit => ?_⟩
    · refine h.session.told (isReport_refusal _ _) ?_ fun hfit => ?_
      · rw [plainEntries_refusal, plainEntries_refusal]
      · exact (refusal_congr hrun htime (h.filingResult hfit)).symm
    · obtain ⟨f, h₁, h₂⟩ := h.filed hfit
      refine ⟨f ++ [⟨executionsCollection, r₁.id, r₁.document⟩], ?_, ?_⟩
      · simp [h₁]
      · simp [h₂, Filing.unreported, h.document hfit, h.id]

/-- Steps that keep sessions alongside keep the runs so. -/
theorem Alongside.stepped {f g : SessionStep Unit} (h : Alongside p w r₁ r₂)
    (hfg : ∀ exact calls, Matches (Session.Alongside p exact calls) f g) :
    Agree (fun s t => Alongside p w (r₁.withSession s) (r₂.withSession t))
      (f.run r₁.session) (g.run r₂.session) := by
  refine (hfg _ r₁.session.journal.calls.length _ _ { h.session with calls := le_rfl }).mono
    fun s t hst => ?_
  -- what fits after more calls has fitted before them
  have hbefore (hfit : ReportsFit p w (r₁.withSession s).world) : ReportsFit p w r₁.world :=
    hfit.imp_right ((min_le_min_left _ hst.calls).trans_lt ·)
  exact ⟨h.id, h.record, h.ticks, h.issued,
    { hst with calls := Nat.zero_le _, events := fun hfit => hst.events (hbefore hfit) },
    h.memory, fun hfit => h.store (hbefore hfit), fun hfit => h.filed (hbefore hfit)⟩

end Run

/-- A finished run without the log entries about attempts. -/
def FinishedRun.unreported (f : FinishedRun) : FinishedRun :=
  { f with context := f.context.unreported }

/-- A finished run without the log entries about attempts and refused writes. -/
def FinishedRun.plain (f : FinishedRun) : FinishedRun := { f with context := f.context.plain }

/-- Runs from `w` that end alike, but for the reports about attempts of the first one.  They come to
the same with the same record, snapshot and warnings, after the same calls of the triggers and the
same waits.  Without those reports the logs are equal, and so are the documents given to the store.
Only where files are written and there are so many attempts that a report could not be written for
the length of its number, the entries about refused writes have to be left out as well. -/
structure EndAlike (p : RetryPolicy) (w : World) (o₁ o₂ : Except Failure FinishedRun × World) :
    Prop where
  plain : o₁.1.map FinishedRun.plain = o₂.1.map FinishedRun.plain
  journal : o₁.2.journal = o₂.2.journal
  ticks : o₁.2.ticks = o₂.2.ticks
  issued : o₁.2.issued = o₂.2.issued
  log : ReportsFit p w o₁.2 → o₁.1.map FinishedRun.unreported = o₂.1
  filed : ReportsFit p w o₁.2 →
    ∃ f, o₁.2.filed = w.filed ++ f ∧ o₂.2.filed = w.filed ++ f.map Filing.unreported
  reports : ∀ f, o₁.1 = .ok f → ∀ e ∈ f.context.events, isReport e = true →
    Reports p o₁.2.journal.calls.length e

/-- A run that breaks off before there is a record. -/
theorem EndAlike.error (e : Failure) (w w' : World) (h : w'.filed = w.filed) :
    EndAlike p w (.error e, w') (.error e, w') :=
  ⟨rfl, rfl, rfl, rfl, fun _ => rfl, fun _ => ⟨[], by simp [h], by simp [h]⟩, fun _ h => nomatch h⟩

theorem Run.Alongside.endAlike {w : World} {r₁ r₂ : Run} (h : Alongside p w r₁ r₂)
    (outcome : Except Failure Unit) :
    EndAlike p w (.ok ⟨outcome, r₁.id, r₁.context, r₁.record⟩, r₁.world)
      (.ok ⟨outcome, r₂.id, r₂.context, r₂.record⟩, r₂.world) := by
  refine ⟨?_, h.session.journal, h.ticks, h.issued, fun hfit => ?_, h.filed, ?_⟩
  · have hplain : r₁.context.plain = r₂.context.plain := h.session.context
    simp only [Except.map, FinishedRun.plain, h.id, h.record, hplain]
  · have hevents : otherEntries r₁.context.events = r₂.context.events := h.session.events hfit
    have hunreported : r₁.context.unreported = r₂.context := by
      rw [Context.unreported, hevents, ← h.context]
    simp only [Except.map, FinishedRun.unreported, h.id, h.record, hunreported]
  · intro f hf
    cases hf
    exact h.session.reports

/-- The engine under a policy. -/
def Executor.withPolicy (x : Executor) (p : RetryPolicy) : Executor :=
  { x with services := { x.services with retry := some p } }

/-- The engine without a policy, whose triggers try again by themselves. -/
def Executor.withRetryingTriggers (x : Executor) (p : RetryPolicy) : Executor :=
  { x with services := { x.services with
    retry := none
    buildTrigger := x.services.buildTrigger.retrying p
    deployTrigger := x.services.deployTrigger.retrying p } }

namespace Executor

open Run

variable (x : Executor) (p)

theorem samePolicy : Services.SamePolicy p (x.withPolicy p).services
    (x.withRetryingTriggers p).services := ⟨rfl, rfl, rfl, rfl, rfl, rfl⟩

/-- The context that a run starts in has no report about an attempt. -/
theorem openContext_unreported (run : RunIdentity) (plan : Plan) :
    ∃ c, x.openContext run plan = .ok c ∧ c.run = run ∧ ∀ e ∈ c.events, isReport e = false := by
  refine x.openContext_spec run plan ⟨rfl, by simp [Context.start]⟩
    fun c node message ⟨hrun, hevents⟩ => ⟨hrun, fun e he => ?_⟩
  rcases List.mem_append.1 he with he | he
  · exact hevents e he
  · rw [List.mem_singleton.1 he]
    exact c.isReport_entry _ _ _ [] (by simp)

theorem alongside_start {id key : String} {w w' : World} {c : Context} {record : Record}
    (hid : c.run.executionId = .str id) (hevents : ∀ e ∈ c.events, isReport e = false)
    (hstore : w'.store = w.store) (hfiled : w'.filed = w.filed) :
    Alongside p w ⟨key, w', c, record⟩ ⟨key, w', c, record⟩ where
  id := rfl
  record := rfl
  ticks := rfl
  issued := rfl
  session := ⟨rfl, rfl, ⟨id, hid⟩,
    fun e he hyes => absurd ((hevents e he).symm.trans hyes) Bool.false_ne_true,
    fun _ => otherEntries_eq_self hevents, Nat.zero_le _⟩
  memory h := hstore ▸ h
  store _ := .refl _
  filed _ := ⟨[], by simp [hfiled], by simp [hfiled]⟩

theorem execute_endAlike (run : RunIdentity) (id : String) (hid : run.executionId = .str id)
    (plan : Plan) (w : World) : EndAlike p w ((x.withPolicy p).execute run id plan w)
      ((x.withRetryingTriggers p).execute run id plan w) := by
  obtain ⟨c, hopen, hrun, hevents⟩ := (x.withPolicy p).openContext_unreported run plan
  have hopen' : (x.withRetryingTriggers p).openContext run plan = .ok c := hopen
  simp only [execute, hopen, hopen', mapError_ok]
  have hclock : (x.withRetryingTriggers p).clock = (x.withPolicy p).clock := rfl
  have hhash : (x.withRetryingTriggers p).configHash = (x.withPolicy p).configHash := rfl
  rw [hclock, hhash]
  cases (x.withPolicy p).clock w.ticks with
  | error e => exact .error e w _ rfl
  | ok time =>
    dsimp only
    cases Record.create run (plan.order.map fun n => (n.id, n.type)) time
        (x.withPolicy p).configHash with
    | error e => exact .error e w _ rfl
    | ok record =>
      have hstart : Alongside p w ⟨id, { w with ticks := w.ticks + 1 }, c, record⟩
          ⟨id, { w with ticks := w.ticks + 1 }, c, record⟩ :=
        alongside_start p (by rw [hrun, hid]) hevents rfl rfl
      have hvisits := matches_visitAll paired_alongside hclock.symm
        (fun n _ _ h => h.stepped fun _ _ => (x.samePolicy p).matches_dispatch n) plan.order _ _
        hstart
      dsimp only
      revert hvisits
      generalize EStateM.run ((x.withPolicy p).visitAll plan.order) _ = o₁
      generalize EStateM.run ((x.withRetryingTriggers p).visitAll plan.order) _ = o₂
      rintro (⟨u, h⟩ | ⟨e, h⟩)
      · exact h.endAlike (.ok ())
      · exact h.endAlike (.error e)

/-- An engine may try its triggers again under a policy, or have triggers that try again under it by
themselves: the runs end alike. -/
theorem run_withPolicy (pipelineId userId projectId : String) (w : World) :
    EndAlike p w ((x.withPolicy p).run pipelineId userId projectId w)
      ((x.withRetryingTriggers p).run pipelineId userId projectId w) := by
  have hsettings : (x.withRetryingTriggers p).services.settings
      = (x.withPolicy p).services.settings := rfl
  simp only [run, hsettings]
  cases loadGraph w.store pipelineId >>= plan (x.withPolicy p).services.settings with
  | error e => exact .error e w w rfl
  | ok plan =>
    have h := x.execute_endAlike p ⟨.str (x.executionId w.issued), .str pipelineId, .str userId,
      .str projectId⟩ (x.executionId w.issued) rfl plan { w with issued := w.issued + 1 }
    exact ⟨h.plain, h.journal, h.ticks, h.issued, h.log, h.filed, h.reports⟩

/-- An engine whose build trigger is throttled twice. -/
def throttledTwice : Executor :=
  { unableToBuild with services := { unableToBuild.services with
    buildTrigger := .ofAnswer fun earlier _ =>
      if earlier.length < 2 then
        .error (.fault ⟨"ClientError", "slow down", false, .str "ThrottlingException", [], .null⟩)
      else .ok (some ⟨some "build:1", none, none⟩) } }

theorem run_withPolicy_throttledTwice :
    let w := World.start (chainStore fun _ => false)
    let o₁ := (throttledTwice.withPolicy .default).run "chain" "user" "project" w
    let o₂ := (throttledTwice.withRetryingTriggers .default).run "chain" "user" "project" w
    o₁.1.map FinishedRun.unreported = o₂.1 ∧ o₁.2.journal = o₂.2.journal
      ∧ o₁.2.journal.calls.length = 3 ∧ o₁.1.map (·.context.events.length) = .ok 6
      ∧ o₂.1.map (·.context.events.length) = .ok 4 := by
  intro w o₁ o₂
  have h : EndAlike .default w o₁ o₂ :=
    run_withPolicy .default throttledTwice "chain" "user" "project" w
  exact ⟨h.log (.inl ⟨_, rfl⟩), h.journal, by decide +kernel, by decide +kernel, by decide +kernel⟩

end Executor

end BuildPipeline
