import BuildPipeline.Proofs.DepthFirst
import BuildPipeline.Proofs.SessionLaws

/-! The log of a context.  Every call adds one entry that bears the arguments of the call, and what a
call warns of is kept by node as well.  An entry names the execution of its context, unless a further
field of the call takes that name. -/

namespace BuildPipeline

namespace Table

variable {κ α : Type} [BEq κ]

/-- Adds values to those that stand under their keys. -/
def gather (t : Table κ (List α)) (es : List (κ × α)) : Table κ (List α) :=
  es.foldl (fun t e => modify t e.1 [] (· ++ [e.2])) t

theorem gather_append (t : Table κ (List α)) (es fs : List (κ × α)) :
    gather t (es ++ fs) = gather (gather t es) fs := List.foldl_append

theorem gather_append_singleton (t : Table κ (List α)) (es : List (κ × α)) (e : κ × α) :
    gather t (es ++ [e]) = modify (gather t es) e.1 [] (· ++ [e.2]) := gather_append t es [e]

variable [EquivBEq κ]

theorem getD_gather (t : Table κ (List α)) (es : List (κ × α)) (k : κ) :
    getD (gather t es) k [] = getD t k [] ++ (es.filter (·.1 == k)).map (·.2) := by
  induction es using List.reverseRecOn with
  | nil => simp [gather]
  | append_singleton es e ih =>
    rw [gather_append_singleton, getD_modify]
    cases hk : e.1 == k with
    | true => simp [getD_congr hk, ih, hk]
    | false => simp [ih, hk]

theorem contains_gather (t : Table κ (List α)) (es : List (κ × α)) (k : κ) :
    contains (gather t es) k = (contains t k || (keys es).contains k) := by
  induction es using List.reverseRecOn with
  | nil => simp [gather, keys]
  | append_singleton es e ih =>
    rw [gather_append_singleton, modify, contains_insert, ih, keys_append]
    simp [keys, BEq.comm, Bool.or_comm, Bool.or_left_comm]

/-- Keys that are new come after those that are there, in order of first mention. -/
theorem keys_gather (t : Table κ (List α)) (es : List (κ × α)) :
    keys (gather t es) = keys t ++ (firsts (keys es)).filter (!contains t ·) := by
  induction es using List.reverseRecOn with
  | nil => simp [gather, keys, firsts]
  | append_singleton es e ih =>
    rw [gather_append_singleton, modify, keys_insert_eq, contains_gather, ih, keys_append]
    change _ = _ ++ (firsts (keys es ++ [e.1])).filter _
    -- a key is added once: at its first mention, and only if the table does not have it
    rw [firsts_append_singleton, contains_firsts]
    cases ht : contains t e.1 <;> cases (keys es).contains e.1 <;> simp [ht]

end Table

/-- Names that a call of the log takes for itself. -/
def Context.logArguments : List String := ["self", "node_id", "level", "message"]

/-- Further fields of an entry. Each has a name of its own, which no argument of the call has. -/
structure ExtraFields where
  fields : Table String Value
  distinct : fields.Distinct
  apart : ∀ e ∈ fields, e.1 ∉ Context.logArguments

namespace ExtraFields

def none : ExtraFields := ⟨[], .nil, nofun⟩

theorem get?_eq_none (more : ExtraFields) {name : String} (h : name ∈ Context.logArguments) :
    Table.get? more.fields name = .none :=
  Table.get?_eq_none_iff.2 fun e he => beq_eq_false_iff_ne.2 fun hname =>
    more.apart e he (hname ▸ h)

end ExtraFields

/-- A call that adds to the log of a context. -/
inductive Notice
  | entry (node level message : Value) (more : ExtraFields)
  | warning (node : Scalar) (message : Value)

namespace Notice

def node : Notice → Value
  | .entry node _ _ _ => node
  | .warning node _ => .scalar node

def level : Notice → Value
  | .entry _ level _ _ => level
  | .warning _ _ => .str "warning"

def message : Notice → Value
  | .entry _ _ message _ => message
  | .warning _ message => message

def more : Notice → ExtraFields
  | .entry _ _ _ more => more
  | .warning _ _ => .none

def warning? : Notice → Option (Scalar × Value)
  | .entry _ _ _ _ => none
  | .warning node message => some (node, message)

/-- No further field of the call names another execution. -/
def OfExecution (n : Notice) (execution : Value) : Prop :=
  ∀ v ∈ Table.get? n.more.fields "execution_id", v = execution

instance (n : Notice) (execution : Value) : Decidable (n.OfExecution execution) :=
  inferInstanceAs (Decidable (∀ v ∈ Table.get? n.more.fields "execution_id", v = execution))

/-- An entry bears the arguments of a call. -/
structure Told (n : Notice) (e : Dict) : Prop where
  node : Dict.field e "node_id" = some n.node
  level : Dict.field e "level" = some n.level
  message : Dict.field e "message" = some n.message

end Notice

namespace Context

def note (c : Context) : Notice → Except ShapeError Context
  | .entry node level message more => .ok (c.log node level message (Dict.of more.fields))
  | .warning node message => c.addWarning (.scalar node) message

def noteAll (c : Context) (ns : List Notice) : Except ShapeError Context := ns.foldlM note c

section Calls

/-- The entry that a call adds. -/
def entryOf (c : Context) (n : Notice) : Dict :=
  c.entry n.node n.level n.message (Dict.of n.more.fields)

/-- A context with more entries and more warnings. -/
def grown (c : Context) (es : List Dict) (ws : List (Scalar × Value)) : Context :=
  { c with events := c.events ++ es, warnings := Table.gather c.warnings ws }

theorem grown_grown (c : Context) (es fs : List Dict) (ws vs : List (Scalar × Value)) :
    (c.grown es ws).grown fs vs = c.grown (es ++ fs) (ws ++ vs) := by
  simp [grown, Table.gather_append]

theorem entryOf_grown (c : Context) (es : List Dict) (ws : List (Scalar × Value)) :
    (c.grown es ws).entryOf = c.entryOf := rfl

theorem note_eq (c : Context) (n : Notice) :
    c.note n = .ok (c.grown [c.entryOf n] n.warning?.toList) := by
  cases n <;> rfl

theorem noteAll_cons (c : Context) (n : Notice) (ns : List Notice) :
    c.noteAll (n :: ns) = c.note n >>= (·.noteAll ns) := List.foldlM_cons

theorem noteAll_append (c : Context) (ns ms : List Notice) :
    c.noteAll (ns ++ ms) = c.noteAll ns >>= (·.noteAll ms) := List.foldlM_append

theorem noteAll_eq (c : Context) (ns : List Notice) :
    c.noteAll ns = .ok (c.grown (ns.map c.entryOf) (ns.filterMap Notice.warning?)) := by
  induction ns generalizing c with
  | nil => simp [noteAll, grown, Table.gather, pure, Except.pure]
  | cons n ns ih =>
    have hwarnings : (n :: ns).filterMap Notice.warning?
        = n.warning?.toList ++ ns.filterMap Notice.warning? := by
      cases n <;> rfl
    rw [noteAll_cons, note_eq, ok_bind, ih, grown_grown, entryOf_grown, hwarnings]
    rfl

end Calls

section Entries

theorem field_entryOf (c : Context) (n : Notice) (name : String) :
    Dict.field (c.entryOf n) name
      = (Table.get? n.more.fields name).or (Dict.field (c.entry n.node n.level n.message []) name) :=
  Dict.field_union_of_distinct _ n.more.distinct name

theorem told_entryOf (c : Context) (n : Notice) : n.Told (c.entryOf n) := by
  constructor <;> rw [field_entryOf, n.more.get?_eq_none (by decide)] <;> rfl

theorem execution_entryOf (c : Context) (n : Notice) :
    Dict.field (c.entryOf n) "execution_id" = some c.run.executionId
      ↔ n.OfExecution c.run.executionId := by
  rw [field_entryOf, Notice.OfExecution]
  cases Table.get? n.more.fields "execution_id" with
  | none => exact iff_of_true rfl nofun
  | some v => simp

end Entries

/-- Each call adds one entry, which bears the arguments of the call, and leaves those before it alone.
The messages of warnings stand under their nodes in the order of the calls, and the nodes in that of
their first warnings; nothing else changes. The entries name the execution of the context exactly if no
call brings a further field that names another one. -/
theorem log_attributed_iff (c : Context) (ns : List Notice) : ∃ c' es,
    c.noteAll ns = .ok c' ∧ c'.events = c.events ++ es ∧ List.Forall₂ Notice.Told ns es
    ∧ (∀ before n after, ns = before ++ n :: after → ∃ c₁ c₂ e, c.noteAll before = .ok c₁
      ∧ c₁.note n = .ok c₂ ∧ c₂.noteAll after = .ok c' ∧ c₂.events = c₁.events ++ [e])
    ∧ ((∀ e ∈ es, Dict.field e "execution_id" = some c.run.executionId)
      ↔ ∀ n ∈ ns, n.OfExecution c.run.executionId)
    ∧ (∀ node, Table.getD c'.warnings node [] = Table.getD c.warnings node []
      ++ ((ns.filterMap Notice.warning?).filter (·.1 == node)).map (·.2))
    ∧ c'.warnings.keys = c.warnings.keys
      ++ (firsts ((ns.filterMap Notice.warning?).map (·.1))).filter (!c.warnings.contains ·)
    ∧ c'.snapshot = c.snapshot ∧ c'.run = c.run := by
  refine ⟨_, ns.map c.entryOf, noteAll_eq c ns, rfl, ?told, ?each, ?execution,
    Table.getD_gather _ _, Table.keys_gather _ _, rfl, rfl⟩
  case told => exact List.forall₂_map_right_iff.2 (List.forall₂_same.2 fun n _ => told_entryOf c n)
  case each =>
    rintro before n after rfl
    have hrun := noteAll_eq c (before ++ n :: after)
    rw [noteAll_append, noteAll_eq, ok_bind, noteAll_cons, note_eq, ok_bind] at hrun
    exact ⟨_, _, _, noteAll_eq c before, note_eq _ n, hrun, rfl⟩
  case execution => simp [execution_entryOf]

def nightly : Context :=
  .start ⟨.str "exec-1", .str "nightly", .str "user-1", .str "shop"⟩ ⟨0, some 0⟩

/-- A call with further fields, one of which names the execution of `nightly` once more. -/
def buildStarted : Notice := .entry (.str "b") (.str "info") (.str "Build started")
  ⟨[("build_id", .str "b-1"), ("execution_id", .str "exec-1")], by decide, by decide⟩

def nightlyCalls : List Notice := [buildStarted, .warning (.str "t") (.str "slow"),
  .warning (.str "b") (.str "old"), .warning (.str "t") (.str "flaky")]

theorem log_attributed_iff_nightly : ∃ c' es, nightly.noteAll nightlyCalls = .ok c'
    ∧ c'.events = es ∧ es.length = 4
    ∧ (∀ e ∈ es, Dict.field e "execution_id" = some (.str "exec-1"))
    ∧ c'.warnings.keys = [.str "t", .str "b"]
    ∧ Table.getD c'.warnings (.str "t") [] = [.str "slow", .str "flaky"] := by
  obtain ⟨c', es, hrun, hevents, htold, -, hexecution, hmessages, hnodes, -⟩ :=
    log_attributed_iff nightly nightlyCalls
  exact ⟨c', es, hrun, hevents, htold.length_eq.symm, hexecution.2 (by decide),
    hnodes.trans (by decide), (hmessages (.str "t")).trans (by decide)⟩

/-- A further field can take the place of the execution that the entry belongs to. -/
theorem log_misattributed :
    let misnamed : ExtraFields := ⟨[("execution_id", .str "exec-2")], by decide, by decide⟩
    ∃ c' e, nightly.noteAll [.entry (.str "b") (.str "info") (.str "Build started") misnamed] = .ok c'
      ∧ c'.events = [e] ∧ Dict.field e "execution_id" = some (.str "exec-2")
      ∧ ¬∀ e ∈ c'.events, Dict.field e "execution_id" = some nightly.run.executionId :=
  ⟨_, _, rfl, rfl, rfl, by decide⟩

end Context

end BuildPipeline
