import BuildPipeline.Proofs.NormalForms
import BuildPipeline.Trigger.Deployment

/-!
What a deployment is aimed at, and when it is rolled back. Whatever a deploy node holds, there is a
tag to filter by and none has an empty key: the tags that the node lists, or its environment if it
lists none.
-/

namespace BuildPipeline

namespace Tag

/-- What an entry has in a field, or in another one if it does not have the first. -/
def spelled (d : Dict) (name other : String) : Option Value :=
  (Dict.field d name).or (Dict.field d other)

/-- What stands for a value of a tag; null stands for nothing. -/
def valueText (o : Option Value) : String := ((o.filter (· != .null)).map Value.text).getD ""

/-- An entry that is a mapping with a key that counts as true, and its tag. -/
def Describes (entry : Value) (t : Tag) : Prop :=
  ∃ d k, entry = .dict d ∧ spelled d "key" "Key" = some k ∧ k.truthy
    ∧ t = ⟨k.text, valueText (spelled d "value" "Value")⟩

/-- The entries of a list. A value that is no list has none. -/
def entriesOf : Value → List Value
  | .list vs => vs
  | .pair v w => [v, w]
  | _ => []

/-- The tags of entries in their order. An entry that describes none is passed over. -/
inductive Listed : List Value → List Tag → Prop
  | nil : Listed [] []
  | tag {v : Value} {t : Tag} {vs : List Value} {ts : List Tag} (h : Describes v t)
    (hs : Listed vs ts) : Listed (v :: vs) (t :: ts)
  | pass {v : Value} {vs : List Value} {ts : List Tag} (h : ∀ t, ¬Describes v t)
    (hs : Listed vs ts) : Listed (v :: vs) ts

variable {v : Value} {t : Tag} {vs : List Value} {ts : List Tag}

theorem fieldEither_eq (d : Dict) (name other : String) :
    Dict.fieldEither d name other = (spelled d name other).getD .null := by
  rw [Dict.fieldEither, spelled, Dict.fieldD]
  cases Dict.field d name <;> rfl

theorem valueText_eq (d : Dict) (name other : String) :
    (if Dict.fieldEither d name other = .null then "" else (Dict.fieldEither d name other).text)
      = valueText (spelled d name other) := by
  rw [fieldEither_eq, valueText]
  cases spelled d name other with
  | none => rfl
  | some v => by_cases hv : v = .null <;> simp [hv, Option.filter]

theorem read?_dict (d : Dict) : read? (.dict d) = ((spelled d "key" "Key").filter Value.truthy).map
    fun k => ⟨k.text, valueText (spelled d "value" "Value")⟩ := by
  rw [read?, ← valueText_eq, fieldEither_eq d "key" "Key"]
  cases spelled d "key" "Key" with
  | none => rfl
  | some k => cases hk : k.truthy <;> simp [Option.filter, hk]

theorem read?_eq_some : read? v = some t ↔ Describes v t := by
  cases v with
  | dict d =>
    rw [read?_dict, Option.map_eq_some_iff]
    constructor
    · rintro ⟨k, hk, rfl⟩
      obtain ⟨hk, htruthy⟩ := Option.filter_eq_some_iff.1 hk
      exact ⟨d, k, rfl, hk, htruthy, rfl⟩
    · rintro ⟨d', k, hd, hk, htruthy, rfl⟩
      cases hd
      exact ⟨k, Option.filter_eq_some_iff.2 ⟨hk, htruthy⟩, rfl⟩
  | _ => exact iff_of_false nofun fun ⟨d, k, h, _⟩ => nomatch h

theorem Describes.key_ne_empty (h : Describes v t) : t.key ≠ "" := by
  obtain ⟨d, k, -, -, hk, rfl⟩ := h
  exact Value.text_ne_empty hk

theorem listed_readAll (v : Value) : Listed (entriesOf v) (readAll v) := by
  have hlisted (vs : List Value) : Listed vs (vs.filterMap read?) := by
    induction vs with
    | nil => exact .nil
    | cons v vs ih =>
      cases hv : read? v with
      | none =>
        rw [List.filterMap_cons_none hv]
        exact .pass (fun t ht => by cases hv.symm.trans (read?_eq_some.2 ht)) ih
      | some t =>
        rw [List.filterMap_cons_some hv]
        exact .tag (read?_eq_some.1 hv) ih
  cases v with
  | list vs => exact hlisted vs
  | pair v w => exact hlisted [v, w]
  | _ => exact .nil

theorem Listed.key_ne_empty (h : Listed vs ts) : ∀ t ∈ ts, t.key ≠ "" := by
  induction h with
  | nil => exact nofun
  | tag h _ ih => exact List.forall_mem_cons.2 ⟨h.key_ne_empty, ih⟩
  | pass _ _ ih => exact ih

theorem Listed.eq_nil_iff (h : Listed vs ts) : ts = [] ↔ ∀ v ∈ vs, ∀ t, ¬Describes v t := by
  induction h with
  | nil => simp
  | tag h _ _ => exact iff_of_false nofun fun hnone => hnone _ List.mem_cons_self _ h
  | pass h _ ih => rw [ih, List.forall_mem_cons, and_iff_right h]

end Tag

namespace DeploymentConfig

/-- The filter that a tag stands for. -/
def filterOf (t : Tag) : Value :=
  .ofTable [("Type", .str "KEY_AND_VALUE"), ("Key", .str t.key), ("Value", .str t.value)]

variable {data d : Dict} {name : String}

def rollbackFields (data : Dict) : Dict := mapping (Dict.fieldD data "rollback_config")

/-- A mapping has a field that counts as true. -/
def On (d : Dict) (name : String) : Prop := ∃ v, Dict.field d name = some v ∧ v.truthy

/-- A mapping has a field that counts as false. -/
def Off (d : Dict) (name : String) : Prop := ∃ v, Dict.field d name = some v ∧ ¬v.truthy

theorem flag_true_iff : flag d name true = false ↔ Off d name := by
  rw [flag, Off]
  cases Dict.field d name <;> simp

theorem flag_false_iff : flag d name false = true ↔ On d name := by
  rw [flag, On]
  cases Dict.field d name <;> simp

theorem rollbackEvents_eq_nil {c : DeploymentConfig} : c.rollbackEvents = []
    ↔ c.rollbackEnabled = false ∨ c.rollbackOnFailure = false ∧ c.rollbackOnAlarm = false := by
  rw [rollbackEvents]
  cases c.rollbackEnabled <;> cases c.rollbackOnFailure <;> cases c.rollbackOnAlarm <;> simp

theorem environment_ne_empty (data : Dict) : (ofFields data).environment ≠ "" :=
  Value.text_orElse_ne_empty _ (by decide)

theorem tagFilters_eq (c : DeploymentConfig) : c.tagFilters = c.tags.map filterOf := rfl

/-- Every mapping is read as a deployment. Its filters stand for the entries of the tag list that
are mappings with a key that counts as true, in their order, and for the environment alone if there
are none: there is always a filter, and no filter has an empty key. It is rolled back for nothing
exactly if rolling back is off, or rolling back on failure is off and rolling back on alarms is not
on. -/
theorem read_tagged (data : Dict) : ∃ c, read (.dict data) = .ok c
    ∧ (c.tagFilters ≠ [] ∧ ∀ f ∈ c.tagFilters, ∃ k, f.get "Key" = .ok (some (.str k)) ∧ k ≠ "")
    ∧ (∃ ts, Tag.Listed (Tag.entriesOf (Dict.fieldD data "instance_tags")) ts
      ∧ (ts = [] ↔ ∀ v ∈ Tag.entriesOf (Dict.fieldD data "instance_tags"), ∀ t, ¬Tag.Describes v t)
      ∧ c.tagFilters = (if ts = [] then [⟨"Environment", c.environment⟩] else ts).map filterOf)
    ∧ c.environment = textOr (Dict.fieldD data "environment") "development" ∧ c.environment ≠ ""
    ∧ (c.rollbackEvents = []
      ↔ c.rollbackEnabled = false ∨ c.rollbackOnFailure = false ∧ c.rollbackOnAlarm = false)
    ∧ (c.rollbackEnabled = false ↔ Off (rollbackFields data) "enabled")
    ∧ (c.rollbackOnFailure = false ↔ Off (rollbackFields data) "on_deployment_failure")
    ∧ (c.rollbackOnAlarm = true ↔ On (rollbackFields data) "on_alarm_threshold") := by
  have hlisted := Tag.listed_readAll (Dict.fieldD data "instance_tags")
  have htags : (ofFields data).tags
      = if Tag.readAll (Dict.fieldD data "instance_tags") = []
        then [⟨"Environment", (ofFields data).environment⟩]
        else Tag.readAll (Dict.fieldD data "instance_tags") := by
    simp only [ofFields, List.isEmpty_iff]
  have hkeys : (ofFields data).tags ≠ [] ∧ ∀ t ∈ (ofFields data).tags, t.key ≠ "" := by
    rw [htags]
    split_ifs with hnone
    · simp
    · exact ⟨hnone, hlisted.key_ne_empty⟩
  refine ⟨ofFields data, rfl, ⟨?_, ?_⟩, ⟨_, hlisted, hlisted.eq_nil_iff, ?_⟩, rfl,
    environment_ne_empty data, rollbackEvents_eq_nil, flag_true_iff, flag_true_iff, flag_false_iff⟩
  · simpa [tagFilters_eq] using hkeys.1
  · simp only [tagFilters_eq, List.forall_mem_map]
    exact fun t ht => ⟨t.key, by rw [filterOf, get_ofTable]; rfl, hkeys.2 t ht⟩
  · rw [tagFilters_eq, htags]

/-- A deploy node with entries of many shapes: no mapping, a key that is null or zero, both
spellings of a key, and values that are no texts. -/
def mixedTags : Dict := Dict.of [("environment", .str "staging"), ("instance_tags", .list [
    .str "Name", .ofTable [("key", .null), ("Key", .str "Name")],
    .ofTable [("Key", .str "Role"), ("Value", .null)], .ofTable [("key", .int 0)],
    .ofTable [("key", .int 7), ("Key", .str "Name"), ("value", .bool true)]]),
  ("rollback_config", .ofTable [("enabled", .str "no"), ("on_deployment_failure", .int 0)])]

/-- Of the entries two describe a tag, and there is nothing to roll back for. -/
theorem read_tagged_mixed : ∃ c, read (.dict mixedTags) = .ok c
    ∧ c.tagFilters = [filterOf ⟨"Role", ""⟩, filterOf ⟨"7", "True"⟩] ∧ c.rollbackEvents = [] := by
  obtain ⟨c, hc, -, -, -, -, hevents, -, hfailure, halarm⟩ := read_tagged mixedTags
  refine ⟨c, hc, ?_, hevents.2 (.inr ⟨hfailure.2 ⟨.int 0, rfl, by decide⟩, ?_⟩)⟩
  · cases hc
    decide +kernel
  · rw [← Bool.not_eq_true, halarm]
    rintro ⟨v, hv, -⟩
    cases hv

end DeploymentConfig

end BuildPipeline
