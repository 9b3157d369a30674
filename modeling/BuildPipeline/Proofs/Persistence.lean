import BuildPipeline.Proofs.Lockstep

/-! Persistence.  What the store does to a write shows in the log and nowhere else: two runs from
stores that hold the same pipeline agree on everything but the entries about refused writes. -/

namespace BuildPipeline

/-- The entries of a log that are not about refused writes. -/
def ownEntries (es : List Dict) : List Dict := es.filter (!isFilingFailure ·)

theorem ownEntries_append {es fs : List Dict} (h : ∀ e ∈ fs, isFilingFailure e = false) :
    ownEntries (es ++ fs) = ownEntries es ++ fs := by
  rw [ownEntries, List.filter_append]
  congr 1
  exact List.filter_eq_self.2 fun e he => by simp [h e he]

/-- A context without the entries about refused writes. -/
def Context.own (c : Context) : Context := c.withEvents (ownEntries c.events)

theorem Context.own_log (c : Context) (node level message : Value) {more : Table String Value}
    (h : ∀ e ∈ more, e.1 ≠ failureField) : (c.log node level message (Dict.of more)).own
      = c.own.log node level message (Dict.of more) := by
  have hq : ∀ e ∈ [c.entry node level message (Dict.of more)], isFilingFailure e = false := by
    intro e he
    rw [List.mem_singleton.1 he]
    exact isFilingFailure_entry _ _ _ _ _ h
  rw [log_eq, own, events_withEvents, ownEntries_append hq]
  rfl

theorem Context.own_warned (c : Context) (node message : String) :
    (c.warned node message).own = c.own.warned node message := by
  have hq : ∀ e ∈ [c.entry (.str node) (.str "warning") (.str message) []],
      isFilingFailure e = false := by
    intro e he
    rw [List.mem_singleton.1 he]
    exact isFilingFailure_entry c _ _ _ [] (by simp)
  simp only [own, warned, ownEntries_append hq]
  rfl

def Session.own (s : Session) : Session := { s with context := s.context.own }

/-- A step does the same whether or not there are entries about refused writes. -/
theorem Session.Appends.run_own {α : Type} {f : SessionStep α} (hf : Session.Appends f)
    (s : Session) : f.run s.own = overState Session.own (f.run s) := by
  obtain ⟨added, hq, hrun⟩ := hf s
  have hself : f.run s = overState (·.withEvents (s.context.events ++ added)) (f.run s) :=
    hrun s.context.events
  calc
    f.run s.own = overState (·.withEvents (ownEntries s.context.events ++ added)) (f.run s) :=
      hrun _
    _ = overState Session.own (overState (·.withEvents (s.context.events ++ added)) (f.run s)) := by
      cases f.run s <;>
        simp [overState, Session.own, Session.withEvents, Context.own, ownEntries_append hq]
    _ = overState Session.own (f.run s) := by rw [← hself]

/-- What can be seen of a run apart from the store and what it was given. -/
structure View where
  id : String
  context : Context
  record : Record
  journal : Journal
  ticks : Nat
  issued : Nat

namespace Run

def view (r : Run) : View :=
  ⟨r.id, r.context.own, r.record, r.world.journal, r.world.ticks, r.world.issued⟩

theorem isFilingFailure_filing (c : Context) (level message : Value) (kind : String) :
    isFilingFailure (c.entry (.str engineName) level message
      (Dict.of [(failureField, .str kind)])) = true := by
  simp [isFilingFailure, Context.entry, Dict.of, Table.union, Dict.field, Table.get?_insert,
    Table.get?, Scalar.str_beq, failureField]

theorem ownEntries_refusal (c : Context) (result : EStateM.Result StoreError Store Unit) :
    ownEntries (refusal c result) = [] := by
  cases result with
  | ok u s => rfl
  | error e s =>
    refine List.filter_eq_nil_iff.2 fun entry hentry => ?_
    rw [List.mem_singleton.1 hentry, isFilingFailure_filing]
    decide

theorem view_persist (r : Run) : r.persist.view = r.view := by
  have hown : (r.context.withEvents (r.context.events
      ++ refusal r.context r.filingResult)).own = r.context.own := by
    have hentries := ownEntries_refusal r.context r.filingResult
    rw [ownEntries] at hentries
    rw [Context.own, Context.events_withEvents, ownEntries, List.filter_append, hentries,
      List.append_nil]
    rfl
  rw [persist_eq]
  exact congrArg (View.mk r.id · r.record r.world.journal r.world.ticks r.world.issued) hown

theorem paired_view : Paired (fun r₁ r₂ => r₁.view = r₂.view) where
  ticks h := congrArg View.ticks h
  record h := congrArg View.record h
  snapshot h := congrArg (·.context.snapshot) h
  ticked ticks h := congrArg (fun v : View => { v with ticks }) h
  recorded record h := congrArg (fun v : View => { v with record }) h
  failed {r₁ r₂} node payload h := by
    have hm : ∀ e ∈ [("error_type", Value.str payload.type)], e.1 ≠ failureField := by
      simp [failureField]
    simp only [view, View.mk.injEq, log, Context.own_log _ _ _ _ hm] at h ⊢
    simp [h]
  persisted h := by rw [view_persist, view_persist, h]

end Run

namespace Executor

open Run

/-- At a node nothing shows that could not be seen before. -/
theorem pairs_view (x : Executor) : x.Pairs x fun r₁ r₂ => r₁.view = r₂.view := by
  intro n r₁ r₂ h
  simp only [view, View.mk.injEq] at h
  obtain ⟨hid, hc, hr, hj, ht, hi⟩ := h
  have hown : r₁.session.own = r₂.session.own := by simp [session, Session.own, hc, hj]
  have hsame := (x.services.appends_dispatch n).run_own r₁.session
  rw [hown, (x.services.appends_dispatch n).run_own r₂.session] at hsame
  have hview {s t : Session} (h : t.own = s.own) :
      (r₁.withSession s).view = (r₂.withSession t).view := by
    simp only [Session.own, Session.mk.injEq] at h
    simp [view, withSession, hid, hr, ht, hi, h]
  generalize (x.services.dispatch n).run r₁.session = o₁ at hsame ⊢
  generalize (x.services.dispatch n).run r₂.session = o₂ at hsame ⊢
  cases o₁ with
  | ok u s => cases o₂ with
    | ok u' t => exact .ok u (hview (EStateM.Result.ok.inj hsame).2)
    | error e t => cases hsame
  | error e s => cases o₂ with
    | ok u t => cases hsame
    | error e' t =>
      obtain ⟨rfl, hst⟩ := EStateM.Result.error.inj hsame
      exact .error _ (hview hst)

end Executor

section Reliable

/-- A store in memory that takes every write. -/
def Store.Reliable (s : Store) : Prop := (∀ n, s.refuses n = false) ∧ ∃ m, s.backing = .memory m

theorem Store.put_run (s : Store) (c k : String) (v : Value) :
    (Store.put c k v).run s =
      if s.refuses (s.puts + 1) then .error (.unavailable c k) { s with puts := s.puts + 1 }
      else match s.backing.put c k v with
        | .ok b => .ok () { s with puts := s.puts + 1, backing := b }
        | .error e => .error e { s with puts := s.puts + 1 } := by
  simp only [Store.put, EStateM.run_bind, EStateM.run_modify]
  change EStateM.run (if s.refuses (s.puts + 1) then _ else _) _ = _
  split
  · rfl
  · change EStateM.run (liftExcept (s.backing.put c k v) >>= _) _ = _
    cases s.backing.put c k v <;> rfl

theorem Store.Reliable.put {s : Store} (h : s.Reliable) (c k : String) (v : Value) :
    ∃ t : Store, (Store.put c k v).run s = .ok () t ∧ t.Reliable := by
  obtain ⟨hr, m, hm⟩ := h
  refine ⟨{ s with puts := s.puts + 1, backing := .memory (m.put c k v) }, ?_, hr, _, rfl⟩
  rw [Store.put_run, hr, hm]
  rfl

namespace Run

/-- No write was refused so far, and none will be. -/
def Spotless (r : Run) : Prop := r.world.store.Reliable ∧ r.context.own = r.context

def Keeps {α : Type} (f : RunStep α) : Prop := ∀ r : Run, r.Spotless → (stateOf (f.run r)).Spotless

theorem framed_spotless : Framed Spotless where
  ticked h := h
  recorded _ h := h
  logged := by
    rintro r node level message more hm ⟨hs, hc⟩
    refine ⟨hs, ?_⟩
    rw [log, Context.own_log _ _ _ _ hm, hc]
  persisted := by
    rintro r ⟨hs, hc⟩
    obtain ⟨t, hput, ht⟩ := hs.put executionsCollection r.id (.dict r.document.document)
    simp only [persist, hput]
    exact ⟨ht, hc⟩

/-- A step at a node logs nothing about refused writes. -/
theorem carries_spotless (x : Executor) : x.Carries Spotless Spotless := by
  rintro n r ⟨hs, hc⟩
  have hown := (x.services.appends_dispatch n).run_own r.session
  simp only [Session.own, session, hc] at hown
  rw [session]
  cases hfr : (x.services.dispatch n).run ⟨r.context, r.world.journal⟩ with
  | ok u t =>
    rw [hfr] at hown
    injection hown with _ ht
    exact ⟨hs, (congrArg Session.context ht).symm⟩
  | error e t =>
    rw [hfr] at hown
    injection hown with _ ht
    exact ⟨hs, (congrArg Session.context ht).symm⟩

end Run

namespace Executor

open Run

theorem keeps_visitAll (x : Executor) (order : List Node) : Keeps (x.visitAll order) :=
  fun r h => (leads_visitAll framed_spotless framed_spotless (fun _ h => h) (carries_spotless x)
    order r h).stateOf (fun _ _ h => h) fun _ h => h

theorem openContext_own (x : Executor) (run : RunIdentity) (p : Plan) :
    ∃ c, x.openContext run p = .ok c ∧ c.own = c :=
  x.openContext_spec run p rfl fun c node message hc => by rw [Context.own_warned, hc]

end Executor

end Reliable

/-- A finished run without the log entries about refused writes. -/
def FinishedRun.own (f : FinishedRun) : FinishedRun := { f with context := f.context.own }

namespace Executor

/-- Without refused writes there is nothing to leave out. -/
theorem execute_reliable (x : Executor) (run : RunIdentity) (id : String) (p : Plan) (w : World)
    (h : w.store.Reliable) :
    (x.execute run id p w).1.map FinishedRun.own = (x.execute run id p w).1 := by
  obtain ⟨context, hopen, hown⟩ := x.openContext_own run p
  simp only [execute, hopen, mapError_ok]
  cases x.clock w.ticks with
  | error e => rfl
  | ok time =>
    dsimp only
    cases Record.create run (p.order.map fun n => (n.id, n.type)) time x.configHash with
    | error e => rfl
    | ok record =>
      dsimp only
      have hr := x.keeps_visitAll p.order ⟨id, { w with ticks := w.ticks + 1 }, context, record⟩
        ⟨h, hown⟩
      revert hr
      cases (x.visitAll p.order).run ⟨id, { w with ticks := w.ticks + 1 }, context, record⟩ <;>
        simp +contextual [stateOf, Run.Spotless, FinishedRun.own, Except.map]

theorem execute_own (x : Executor) (run : RunIdentity) (id : String) (p : Plan) (w : World)
    (s : Store) :
    let o₁ := x.execute run id p w
    let o₂ := x.execute run id p { w with store := s }
    o₁.1.map FinishedRun.own = o₂.1.map FinishedRun.own
      ∧ o₁.2.journal = o₂.2.journal ∧ o₁.2.ticks = o₂.2.ticks := by
  simp only [execute]
  cases (x.openContext run p).mapError Failure.shape with
  | error e => exact ⟨rfl, rfl, rfl⟩
  | ok context =>
    cases x.clock w.ticks with
    | error e => exact ⟨rfl, rfl, rfl⟩
    | ok time =>
      dsimp only
      cases Record.create run (p.order.map fun n => (n.id, n.type)) time x.configHash with
      | error e => exact ⟨rfl, rfl, rfl⟩
      | ok record =>
        dsimp only
        have h := matches_visitAll Run.paired_view rfl x.pairs_view p.order
          ⟨id, { w with ticks := w.ticks + 1 }, context, record⟩
          ⟨id, { w with store := s, ticks := w.ticks + 1 }, context, record⟩ rfl
        revert h
        generalize EStateM.run (x.visitAll p.order) ⟨id, { w with ticks := w.ticks + 1 }, _, _⟩ = o₁
        generalize EStateM.run (x.visitAll p.order) _ = o₂
        rintro (⟨u, h⟩ | ⟨e, h⟩) <;>
          simp_all [Run.view, FinishedRun.own, Except.map]

/-- Writes do not influence a run, whatever becomes of them: two runs from stores that hold the
same pipeline come to the same end with the same record, snapshot and warnings, and with the same
log but for the entries about refused writes, of which a reliable store leaves none.  They ask the
triggers the same questions, wait the same times and read the clock equally often. -/
theorem run_eq_of_stores (x : Executor) (pipelineId userId projectId : String) (w : World)
    (s : Store)
    (h : w.store.get pipelinesCollection pipelineId = s.get pipelinesCollection pipelineId) :
    let o₁ := x.run pipelineId userId projectId w
    let o₂ := x.run pipelineId userId projectId { w with store := s }
    o₁.1.map FinishedRun.own = o₂.1.map FinishedRun.own
      ∧ (w.store.Reliable → o₁.1 = o₂.1.map FinishedRun.own)
      ∧ o₁.2.journal = o₂.2.journal ∧ o₁.2.ticks = o₂.2.ticks := by
  have hload : loadGraph w.store pipelineId = loadGraph s pipelineId := by
    simp only [loadGraph, h]
  simp only [run, hload]
  cases loadGraph s pipelineId >>= plan x.services.settings with
  | error e => exact ⟨rfl, fun _ => rfl, rfl, rfl⟩
  | ok p =>
    dsimp only
    generalize RunIdentity.mk _ _ _ _ = identity
    obtain ⟨hend, hrest⟩ := x.execute_own identity (x.executionId w.issued) p
      { w with issued := w.issued + 1 } s
    refine ⟨hend, fun hs => ?_, hrest⟩
    rw [← hend]
    exact (x.execute_reliable identity _ p { w with issued := w.issued + 1 } hs).symm

/-- An engine that cannot start a build and whose clock stands still. -/
def unableToBuild : Executor where
  services :=
    { buildTrigger := .ofAnswer fun _ _ =>
        .error (.fault ⟨"RuntimeError", "no capacity", false, .null, [], .null⟩)
      deployTrigger := .ofAnswer fun _ _ => .ok none
      settings := .default
      retry := none
      random := fun _ => 0 }
  configHash := .null
  clock _ := .ok ⟨0, some 0⟩
  executionId n := toString n
  logTime := ⟨0, some 0⟩

/-- A start, a build and an end in a store that refuses some writes. -/
def chainStore (refuses : Nat → Bool) : Store :=
  let node (id type : String) : Value := .ofTable [("id", .str id), ("type", .str type)]
  let edge (source target : String) : Value :=
    .ofTable [("source", .str source), ("target", .str target)]
  .ofBacking (.memory [(pipelinesCollection, [("chain", .ofTable [
    ("nodes", .list [node "a" "start", node "b" "build_vite", node "c" "end"]),
    ("edges", .list [edge "a" "b", edge "b" "c"])])])]) refuses

theorem run_eq_of_chainStores :
    let w := World.start (chainStore fun _ => false)
    let o₁ := unableToBuild.run "chain" "user" "project" w
    let o₂ := unableToBuild.run "chain" "user" "project" { w with store := chainStore fun _ => true }
    o₁.1 = o₂.1.map FinishedRun.own ∧ o₁.2.journal = o₂.2.journal ∧ o₁.2.ticks = o₂.2.ticks := by
  intro w
  obtain ⟨-, hreliable, hrest⟩ := run_eq_of_stores unableToBuild "chain" "user" "project" w
    (chainStore fun _ => true) rfl
  exact ⟨hreliable ⟨fun _ => rfl, _, rfl⟩, hrest⟩

end Executor

end BuildPipeline
