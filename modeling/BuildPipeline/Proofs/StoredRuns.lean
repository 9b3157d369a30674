import BuildPipeline.Proofs.RunFilings
import BuildPipeline.Proofs.StoreUpdates
import BuildPipeline.Proofs.Strictness

/-!
What a run leaves in its store. All that it files goes to one document of its own: nothing else
changes, and once every write is taken the last document filed is the one that is stored.
-/

namespace BuildPipeline

variable {c k : String} {s : Store} {f : Filing} {fs : List Filing}

namespace Store

/-- A document is filed with a store. -/
def file (s : Store) (f : Filing) : EStateM.Result StoreError Store Unit :=
  (put f.collection f.key (.dict f.document.document)).run s

def fileAll (s : Store) (fs : List Filing) : Store := fs.foldl (fun s f => stateOf (s.file f)) s

/-- Every one of some writes succeeds. -/
def Takes : Store → List Filing → Prop
  | _, [] => True
  | s, f :: fs => (∃ s', s.file f = .ok () s') ∧ Takes (stateOf (s.file f)) fs

theorem fileAll_append (s : Store) (fs : List Filing) (f : Filing) :
    s.fileAll (fs ++ [f]) = stateOf ((s.fileAll fs).file f) := by
  rw [fileAll, List.foldl_append]
  rfl

theorem Takes.last (h : s.Takes (fs ++ [f])) : ∃ s', (s.fileAll fs).file f = .ok () s' := by
  induction fs generalizing s with
  | nil => exact h.1
  | cons _ _ ih => exact ih h.2

/-- A store in memory that refuses nothing takes all. -/
theorem Reliable.takes (h : s.Reliable) (fs : List Filing) : s.Takes fs := by
  induction fs generalizing s with
  | nil => trivial
  | cons f fs ih =>
    obtain ⟨t, ht, hreliable⟩ := h.put f.collection f.key (.dict f.document.document)
    refine ⟨⟨t, ht⟩, ?_⟩
    rw [file, ht]
    exact ih hreliable

theorem beside_file (s : Store) (f : Filing) :
    s.backing.Beside f.collection f.key (stateOf (s.file f)).backing := by
  rw [file]
  rcases s.put_cases f.collection f.key (.dict f.document.document) with ⟨e, h⟩ | ⟨b, hb, h⟩
  · rw [h]
    exact .refl _ _ _
  · rw [h]
    exact .put hb

theorem beside_fileAll (h : ∀ f ∈ fs, f.collection = c ∧ f.key = k) (s : Store) :
    s.backing.Beside c k (s.fileAll fs).backing := by
  induction fs generalizing s with
  | nil => exact .refl c k s.backing
  | cons f fs ih =>
    obtain ⟨⟨rfl, rfl⟩, hfs⟩ := List.forall_mem_cons.1 h
    exact (s.beside_file f).trans (ih hfs _)

theorem backing_put_of_file {s' : Store} (h : s.file f = .ok () s') :
    s.backing.put f.collection f.key (.dict f.document.document) = .ok s'.backing := by
  rcases s.put_cases f.collection f.key (.dict f.document.document) with ⟨e, he⟩ | ⟨b, hb, hb'⟩
  · cases h.symm.trans he
  · cases h.symm.trans hb'
    exact hb

/-- The last one of some writes to one document is what is stored. -/
theorem Takes.stores_last (h : s.Takes (fs ++ [f]))
    (haddress : ∀ g ∈ fs ++ [f], g.collection = c ∧ g.key = k) :
    (s.fileAll (fs ++ [f])).backing.Holds c k (.dict f.document.document)
      ∧ ((Value.dict f.document.document).IsJson → (s.fileAll (fs ++ [f])).get c k
        = .ok (some (s.backing.kept (.dict f.document.document)))) := by
  obtain ⟨rfl, rfl⟩ := haddress f (by simp)
  obtain ⟨s', hfile⟩ := h.last
  have hlast : s.fileAll (fs ++ [f]) = s' := by rw [fileAll_append, hfile, stateOf]
  have hput := backing_put_of_file hfile
  rw [hlast]
  refine ⟨Backing.holds_put hput, fun hjson => ?_⟩
  have hkept := (beside_fileAll (fun g hg => haddress g (List.mem_append_left _ hg)) s).kept
    (.dict f.document.document)
  obtain ⟨d, hd⟩ := s.backing.kept_dict f.document.document
  refine (Backing.get_put_self hput hjson).trans ?_
  rw [hd] at hkept ⊢
  exact congrArg (fun v : Value => Except.ok v.present?) hkept

end Store

namespace Run

/-- The store of a run was to take what the run filed, one document after another. -/
def Received (w : World) (r : Run) : Prop :=
  ∃ fs, r.world.filed = w.filed ++ fs ∧ r.world.store = w.store.fileAll fs

theorem framed_received (w : World) : Framed (Received w) where
  ticked h := h
  recorded _ h := h
  logged := by
    intro r node level message more _ h
    exact h
  persisted {r} h := by
    obtain ⟨fs, hfiled, hstore⟩ := h
    refine ⟨fs ++ [⟨executionsCollection, r.id, r.document⟩], ?_, ?_⟩
    · rw [persist_eq, hfiled, List.append_assoc]
    · rw [persist_eq, Store.fileAll_append, ← hstore]
      rfl

end Run

namespace Executor

open Run

theorem carries_received (x : Executor) (w : World) : x.Carries (Received w) (Received w) := by
  intro n r h
  cases (x.services.dispatch n).run r.session <;> exact h

theorem execute_received (x : Executor) (identity : RunIdentity) (id : String) {p : Plan}
    (hids : (p.order.map (·.id)).Nodup) (w : World) :
    ∃ fs, (x.execute identity id p w).2.filed = w.filed ++ fs
      ∧ (x.execute identity id p w).2.store = w.store.fileAll fs := by
  have hnone : ∃ fs, w.filed = w.filed ++ fs ∧ w.store = w.store.fileAll fs := ⟨[], by simp, rfl⟩
  obtain ⟨context, -, ⟨e, hrun, -⟩ | ⟨t, record, -, -, hrun⟩⟩ := x.execute_cases identity id hids w
  · rw [hrun]
    exact hnone
  · have hvisits := leads_visitAll (framed_received w) (framed_received w) (fun _ h => h)
      (x.carries_received w) p.order ⟨id, { w with ticks := w.ticks + 1 }, context, record⟩ hnone
    have hreceived := hvisits.stateOf (fun _ _ h => h) fun _ h => h
    rw [hrun]
    cases hresult : (x.visitAll p.order).run
      ⟨id, { w with ticks := w.ticks + 1 }, context, record⟩ <;> rw [hresult] at hreceived <;>
      exact hreceived

/-- A run that cannot load, check or plan its graph does nothing at all. Any other run files documents
under its own name: with `n` nodes there are `2 * n + 2` of them if the run succeeds and `2 * k + 3`
if `k` nodes have succeeded when one fails. All but the last are of a run that goes on, the nodes
stand in sequence in each, and the last one is the record of the run. Nothing else in the store
changes, and if all writes succeed the last document is what is stored. -/
theorem run_filings (x : Executor) (pipelineId userId projectId : String) (w : World) :
    let out := x.run pipelineId userId projectId w
    let id := x.executionId w.issued
    (∀ e, loadGraph w.store pipelineId >>= plan x.services.settings = .error e → out = (.error e, w))
    ∧ ∀ p, loadGraph w.store pipelineId >>= plan x.services.settings = .ok p →
      ∃ (context : Context) (docs : List RunDocument),
        x.openContext ⟨.str id, .str pipelineId, .str userId, .str projectId⟩ p = .ok context
        ∧ out.2.filed = w.filed ++ docs.map (Filing.mk executionsCollection id)
        ∧ (∀ d ∈ docs, ∃ verdict nodes, d.record.Tells id verdict nodes ∧ InSequence p.order nodes)
        ∧ (∀ i d, docs[i]? = some d → i + 1 < docs.length →
          d.record.Tells id .running (progress p.order i))
        ∧ x.Ending ⟨context, w.journal⟩ id p.order docs out.1
        ∧ w.store.backing.Beside executionsCollection id out.2.store.backing
        ∧ (∀ c k, ¬(c = executionsCollection ∧ k = id) → out.2.store.get c k = w.store.get c k)
        ∧ ∀ d, docs.getLast? = some d →
          w.store.Takes (docs.map (Filing.mk executionsCollection id)) →
            out.2.store.backing.Holds executionsCollection id (.dict d.document)
            ∧ ((Value.dict d.document).IsJson → out.2.store.get executionsCollection id
              = .ok (some (w.store.backing.kept (.dict d.document)))) := by
  intro out id
  refine ⟨fun e he => by simp only [out, run, he], fun p hp => ?_⟩
  obtain ⟨g, -, hplan⟩ := bind_eq_ok.1 hp
  let start : World := { w with issued := w.issued + 1 }
  let identity : RunIdentity := ⟨.str id, .str pipelineId, .str userId, .str projectId⟩
  have hrun : out = x.execute identity id p start := by simp only [out, run, hp, id, identity, start]
  have hidentity : identity.executionId = .str id := rfl
  obtain ⟨context, docs, hopen, hfiled, hongoing, hend⟩ :=
    x.execute_filed hidentity (plan_order_nodup hplan) start
  obtain ⟨fs, hfs, hstore⟩ := x.execute_received identity id (plan_order_nodup hplan) start
  rw [← hrun] at hfiled hend hfs hstore
  obtain rfl : docs.map (Filing.mk executionsCollection id) = fs :=
    List.append_cancel_left (hfiled.symm.trans hfs)
  have haddress : ∀ f ∈ docs.map (Filing.mk executionsCollection id),
      f.collection = executionsCollection ∧ f.key = id := by
    intro f hf
    obtain ⟨d, -, rfl⟩ := List.mem_map.1 hf
    exact ⟨rfl, rfl⟩
  have hbeside : w.store.backing.Beside executionsCollection id out.2.store.backing :=
    hstore ▸ Store.beside_fileAll haddress w.store
  refine ⟨context, docs, hopen, hfiled, hend.inSequence hongoing, hongoing, hend, hbeside,
    fun c k hne => hbeside.get hne, fun d hd htakes => ?_⟩
  obtain ⟨earlier, rfl⟩ : ∃ earlier, docs = earlier ++ [d] :=
    ⟨docs.dropLast, (List.dropLast_append_getLast? d hd).symm⟩
  rw [List.map_append] at hstore htakes haddress
  rw [hstore]
  exact htakes.stores_last haddress

theorem dependable_unableToBuild : unableToBuild.Dependable where
  clock _ := ⟨_, _, rfl, rfl⟩
  build _ _ _ he _ hr := by
    cases he
    cases hr
  deploy _ _ _ he := by cases he

/-- The build in the middle of `chainStore` fails, after five documents. -/
theorem run_filings_chain :
    let w := World.start (chainStore fun _ => false)
    let out := unableToBuild.run "chain" "user" "project" w
    let build : Node := ⟨"b", "build_vite", []⟩
    ∃ docs : List RunDocument, out.2.filed = docs.map (Filing.mk executionsCollection "0")
      ∧ docs.length = 5
      ∧ (∀ i d, docs[i]? = some d → i < 4 →
        d.record.Tells "0" .running (progress chainPlan.order i))
      ∧ (∀ d, docs.getLast? = some d →
        d.record.Tells "0" .failed (during [⟨"a", "start", []⟩] build .failed [⟨"c", "end", []⟩])
        ∧ out.2.store.backing.Holds executionsCollection "0" (.dict d.document))
      ∧ out.2.store.get pipelinesCollection "chain" = w.store.get pipelinesCollection "chain" := by
  intro w out build
  obtain ⟨-, hplanned⟩ := run_filings unableToBuild "chain" "user" "project" w
  have hid : unableToBuild.executionId w.issued = "0" := by decide +kernel
  have hout : unableToBuild.run "chain" "user" "project" w = out := rfl
  -- The run is a name from here on, so that nothing evaluates it.
  clear_value out
  rw [hout, hid, show w.filed = [] from rfl] at hplanned
  obtain ⟨context, docs, hopen, hfiled, -, hongoing, hend, -, helse, hstored⟩ :=
    hplanned chainPlan rfl
  cases hopen
  have hbreaks : ∃ s, unableToBuild.services.BreaksAt
      ⟨.start ⟨.str "0", .str "chain", .str "user", .str "project"⟩ ⟨0, some 0⟩, .empty⟩
      [⟨"a", "start", []⟩] build
      (.fault ⟨"RuntimeError", "no capacity", false, .null, [], .null⟩) s := ⟨_, _, rfl, rfl⟩
  obtain ⟨s, hs⟩ := hbreaks
  generalize out.1 = result at hend
  cases hend with
  | unrecorded hx => exact absurd dependable_unableToBuild hx
  | interrupted _ hx => exact absurd dependable_unableToBuild hx
  | completed _ _ _ _ hall =>
    obtain ⟨s', hs'⟩ := hall dependable_unableToBuild
    cases hs'.symm.trans (hs.dispatchAll [⟨"c", "end", []⟩])
  | failed _ horder hlength hlast htells hbreaks =>
    obtain ⟨s', hs'⟩ := hbreaks dependable_unableToBuild
    have hsplit : [⟨"a", "start", []⟩] ++ build :: [⟨"c", "end", []⟩] = _ := horder
    obtain ⟨rfl, rfl, -⟩ := hs.unique hs' hsplit
    obtain rfl := (List.cons.inj (List.cons.inj hsplit).2).2
    have hfive : docs.length = 5 := hlength
    refine ⟨docs, hfiled, hfive, fun i d hi hlt => hongoing i d hi (by omega), fun d hd => ?_,
      helse _ _ fun h => absurd h.1 (by decide)⟩
    rw [hd] at hlast
    have hrecord := Option.some.inj hlast
    dsimp only at hrecord
    have htakes := Store.Reliable.takes (s := w.store) ⟨fun _ => rfl, _, rfl⟩
      (docs.map (Filing.mk executionsCollection "0"))
    rw [hrecord]
    exact ⟨htells, (hstored d hd htakes).1⟩

end Executor

end BuildPipeline
