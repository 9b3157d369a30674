import BuildPipeline.Config.Load
import BuildPipeline.Proofs.Json.ReadDocuments
import BuildPipeline.Proofs.MergeConflicts
import BuildPipeline.Proofs.Yaml.ReadKeys

/-!
Configurations that are loaded from files that can be read. The fingerprint is taken before anything
is returned, so that a configuration without one is never returned.
-/

namespace BuildPipeline

namespace Value

variable {es : Dict} {v w u : Value}

theorem IsJson.keyed (h : v.IsJson) : v.Keyed := by
  induction h with
  | scalar s => exact .leaf _ (by cases s <;> nofun)
  | list => exact .leaf _ nofun
  | table t ht _ ih => exact .dict _ (distinct_of ht) (List.forall_mem_map.2 ih)

theorem Keyed.at? {p : List Scalar} (h : v.Keyed) (hu : v.at? p = some u) : u.Keyed := by
  induction p generalizing v with
  | nil =>
    cases hu
    exact h
  | cons k p ih =>
    obtain ⟨es, rfl, hu⟩ := at?_cons.1 hu
    obtain ⟨w, hw, hu⟩ := Option.bind_eq_some_iff.1 hu
    exact ih (h.get? hw) hu

theorem Keyed.ne_loop (h : v.Keyed) : v ≠ .loop .dict := by
  rintro rfl
  cases h with
  | leaf v hv => exact hv rfl

end Value

namespace Config

open BuildPipeline.Files BuildPipeline.Text

section Merging

variable {base above m : Dict} {v w u : Value}

theorem mergeEntries_storable (hbase : (Value.dict base).Storable)
    (habove : (Value.dict above).Storable)
    (hmerged : ∀ k v w u, Table.get? base k = some v → Table.get? above k = some w →
      Merged v w u → u.Storable)
    (h : mergeEntries base above = .ok m) : (Value.dict m).Storable := by
  have hdistinct := distinct_mergeEntries hbase.of_dict.1 h
  refine Value.storable_dict hdistinct (fun e he => ?_) fun e he => ?_
  · have hmem : e.1 ∈ Table.keys m := List.mem_map_of_mem he
    rw [keys_mergeEntries habove.of_dict.1 h, joinedKeys, List.mem_append, List.mem_filter] at hmem
    rcases hmem with hmem | ⟨hmem, -⟩
    · obtain ⟨f, hf, hk⟩ := List.mem_map.1 hmem
      exact hk ▸ (hbase.of_dict.2 f hf).1
    · obtain ⟨f, hf, hk⟩ := List.mem_map.1 hmem
      exact hk ▸ (habove.of_dict.2 f hf).1
  · have hjoined := joined_mergeEntries habove.of_dict.1 h e.1
    rw [Table.get?_of_mem hdistinct he] at hjoined
    cases hv : Table.get? base e.1 with
    | none =>
      rw [hv, joined_none] at hjoined
      exact habove.get? hjoined
    | some v =>
      cases hw : Table.get? above e.1 with
      | none =>
        rw [hv, hw, joined_over_none] at hjoined
        exact hbase.get? (hv.trans hjoined)
      | some w =>
        rw [hv, hw] at hjoined
        obtain ⟨u, hu, hm⟩ := hjoined
        exact Option.some.inj hm ▸ hmerged e.1 v w u hv hw hu

/-- A merge of storable documents is storable. -/
theorem Merged.storable (hv : v.Storable) (hw : w.Storable) (h : Merged v w u) : u.Storable := by
  obtain ⟨hjson, hshort⟩ := hw
  induction hjson generalizing v u with
  | scalar s hs =>
    have hu : u = .scalar s := merged_replaced (fun _ _ _ => nofun) h
    exact hu ▸ ⟨.scalar s hs, hshort⟩
  | list vs hvs _ =>
    have hu : u = .list vs := merged_replaced (fun _ _ _ => nofun) h
    exact hu ▸ ⟨.list vs hvs, hshort⟩
  | table t ht hvs ih =>
    have habove : (Value.ofTable t).Storable := ⟨.table t ht hvs, hshort⟩
    by_cases hdict : ∃ base, v = .dict base
    · obtain ⟨base, rfl⟩ := hdict
      obtain ⟨m, hm, rfl⟩ := merged_dict.1 h
      refine mergeEntries_storable hv habove (fun k v w u hk hk' hu => ?_) hm
      obtain ⟨e, he, rfl⟩ := Table.mem_of_get? hk'
      obtain ⟨f, hf, rfl⟩ := List.mem_map.1 he
      exact ih f hf (hv.get? hk) hu (Value.short_ofTable.1 hshort f hf)
    · rw [merged_replaced (fun b _ hb => absurd ⟨b, hb⟩ hdict) h]
      exact habove

theorem storable_merge (hbase : (Value.dict base).Storable) (habove : (Value.dict above).Storable)
    (h : merge (.dict base) (.dict above) = .ok m) : (Value.dict m).Storable :=
  Merged.storable hbase habove (merged_dict.2 ⟨m, h, rfl⟩)

end Merging

section Loading

/-- A file under a known suffix whose text holds a mapping or nothing at all. -/
def Holds (t : Folder) (p : Path) (d : Dict) : Prop :=
  ∃ octets f v, t.find p = some (.file octets) ∧ Format.ofSuffix? p.suffix = some f
    ∧ f.read octets = .ok v ∧ (v = .dict d ∨ v = .null ∧ d = [])

/-- A local file that is not asked for, or not there, or can be read. -/
inductive LocalHolds (t : Folder) : Option String → Option Dict → Prop
  | unset : LocalHolds t none none
  | missing (s : String) (h : t.find (Path.ofText s) = none) : LocalHolds t (some s) none
  | present (s : String) (d : Dict) (h : Holds t (Path.ofText s) d) : LocalHolds t (some s) (some d)

/-- No path of keys leads to two mappings of which one comes back inside itself. To merge them would
be to unroll it. -/
def Unlooped (a b : Value) : Prop :=
  ∀ p v w, a.at? p = some v → b.at? p = some w → v.kind = .dict → w.kind = .dict →
    v ≠ .loop .dict ∧ w ≠ .loop .dict

theorem unlooped_of_keyed {a b : Value} (ha : a.Keyed) (hb : b.Keyed) : Unlooped a b :=
  fun _ _ _ hv hw _ _ => ⟨(ha.at? hv).ne_loop, (hb.at? hw).ne_loop⟩

/-- A file of defaults that can be read, and a local one over it, if there is one. -/
structure Sources (t : Folder) (defaults : String) (localFile : Option String) (base : Dict)
    (layer : Option Dict) : Prop where
  defaults : Holds t (Path.ofText defaults) base
  localFile : LocalHolds t localFile layer
  unlooped : ∀ above, layer = some above → Unlooped (.dict base) (.dict above)

/-- A document with another over it, if there is one. -/
def layered (base : Dict) : Option Dict → Except MergeConflict Dict
  | none => .ok base
  | some above => merge (.dict base) (.dict above)

/-- The configuration alone. Its fingerprint is taken all the same. -/
def loadAlone (t : Folder) (defaults : String) (localFile : Option String) :
    Except LoadError Dict :=
  (load t defaults localFile).map (·.1)

/-- What is documented: a conflict is the only error, and what is merged is returned. -/
def Documented (t : Folder) (defaults : String) (localFile : Option String) :
    Except MergeConflict Dict → Prop
  | .error e => load t defaults localFile = .error (.conflict e)
      ∧ loadAlone t defaults localFile = .error (.conflict e)
  | .ok m => (∃ hash, load t defaults localFile = .ok (m, hash))
      ∧ loadAlone t defaults localFile = .ok m

/-- Whether a file is read as JSON. -/
def IsJsonFile (name : String) : Prop := Format.ofSuffix? (Path.ofText name).suffix = some .json

variable {t : Folder} {p : Path} {defaults : String} {localFile : Option String} {base d m : Dict}
  {layer : Option Dict}

theorem readAt?_of_holds (h : Holds t p d) : readAt? t p = .ok (some d) := by
  obtain ⟨octets, f, v, hfind, hsuffix, hread, hroot⟩ := h
  have hdocument : rootOf p.text v = .ok d := by
    rcases hroot with rfl | ⟨rfl, rfl⟩ <;> rfl
  have hentry : readEntry p (.file octets) = (f.read octets >>= rootOf p.text) := by
    unfold readEntry
    rw [hsuffix]
  rw [readAt?, hfind]
  dsimp only
  rw [hentry, hread, ok_bind, hdocument]
  rfl

theorem readAt?_of_find_eq_none (h : t.find p = none) : readAt? t p = .ok none := by
  rw [readAt?, h]
  rfl

/-- Sources that can be read come to the two documents, one over the other. -/
theorem effective_of_sources (h : Sources t defaults localFile base layer) :
    effective t defaults localFile = (layered base layer).mapError .conflict := by
  rw [effective, readAt?_of_holds h.defaults, ok_bind]
  cases h.localFile with
  | unset => rfl
  | missing s hs =>
    dsimp only
    rw [readAt?_of_find_eq_none hs]
    rfl
  | present s above hs =>
    dsimp only
    rw [readAt?_of_holds hs]
    rfl

theorem singleKeyed_of_holds (h : Holds t p d) : (Value.dict d).SingleKeyed := by
  obtain ⟨octets, f, v, -, -, hread, hroot⟩ := h
  obtain ⟨cs, -, hread⟩ := bind_eq_ok.1 hread
  have hv : v.SingleKeyed := by
    cases f with
    | yaml => exact Yaml.singleKeyed_of_readChars (mapError_eq_ok.1 hread)
    | json => exact (Json.storable_of_read (mapError_eq_ok.1 hread)).json.keyed.singleKeyed
  rcases hroot with rfl | ⟨rfl, rfl⟩
  · exact hv
  · exact .dict [] .nil nofun

theorem storable_of_holds {name : String} (h : Holds t (Path.ofText name) d)
    (hname : IsJsonFile name) : (Value.dict d).Storable := by
  obtain ⟨octets, f, v, -, hsuffix, hread, hroot⟩ := h
  obtain rfl := Option.some.inj (hname.symm.trans hsuffix)
  obtain ⟨cs, -, hread⟩ := bind_eq_ok.1 hread
  have hv := Json.storable_of_read (mapError_eq_ok.1 hread)
  rcases hroot with rfl | ⟨rfl, rfl⟩
  · exact hv
  · exact Value.storable_ofTable (t := []) .nil nofun

/-- A document that is serializable has a fingerprint, and one that is not has none because of a
type or a value. -/
theorem fingerprint_cases (m : Dict) :
    ((Value.dict m).Serializable ∧ ∃ hash, fingerprint (.dict m) = .ok hash)
      ∨ ¬(Value.dict m).Serializable ∧ ∃ e, fingerprint (.dict m) = .error (.write e)
        ∧ (e.kind = "TypeError" ∨ e.kind = "ValueError") := by
  rw [← Json.exists_canonical_iff, fingerprint]
  cases Json.canonical m with
  | ok text => exact .inl ⟨⟨text, rfl⟩, _, rfl⟩
  | error e => exact .inr ⟨nofun, e, rfl, by cases e <;> simp [Json.WriteError.kind]⟩

theorem load_of_layered (h : Sources t defaults localFile base layer)
    (hm : layered base layer = .ok m) : load t defaults localFile
      = ((fingerprint (.dict m)).mapError .fingerprint).map (m, ·) := by
  rw [load, effective_of_sources h, hm, mapError_ok, ok_bind]
  cases fingerprint (.dict m) <;> rfl

theorem load_of_conflict {e : MergeConflict} (h : Sources t defaults localFile base layer)
    (he : layered base layer = .error e) : load t defaults localFile = .error (.conflict e) := by
  rw [load, effective_of_sources h, he]
  rfl

/-- A conflict of two documents is a path of keys to values of different types. -/
theorem exists_layered_error_iff (h : Sources t defaults localFile base layer) :
    (∃ e, layered base layer = .error e)
      ↔ ∃ above, layer = some above ∧ (Value.dict base).Conflicting (.dict above) := by
  cases h.localFile with
  | unset | missing =>
    exact iff_of_false (fun ⟨_, he⟩ => nomatch he) fun ⟨_, hnone, _⟩ => nomatch hnone
  | present s above hs =>
    have hkeyed := singleKeyed_of_holds hs
    rw [layered, ← not_iff_not]
    simp only [Option.some.injEq, exists_eq_left']
    rw [← exists_merged_iff_of_singleKeyed hkeyed, exists_merged_dict, merge]
    cases mergeEntries base above <;> simp

theorem serializable_of_jsonFiles (h : Sources t defaults localFile base layer)
    (hdefaults : IsJsonFile defaults) (hlocal : ∀ s, localFile = some s → IsJsonFile s)
    (hm : layered base layer = .ok m) : (Value.dict m).Serializable := by
  have hbase := storable_of_holds h.defaults hdefaults
  cases h.localFile with
  | unset | missing =>
    cases hm
    exact hbase.serializable
  | present s above hs =>
    exact (storable_merge hbase (storable_of_holds hs (hlocal s rfl)) hm).serializable

theorem loadAlone_of_ok {hash : String} (h : load t defaults localFile = .ok (m, hash)) :
    loadAlone t defaults localFile = .ok m := by
  rw [loadAlone, h]
  rfl

theorem loadAlone_of_error {e : LoadError} (h : load t defaults localFile = .error e) :
    loadAlone t defaults localFile = .error e := by
  rw [loadAlone, h]
  rfl

end Loading

section Files

def portsText : String := "ports:\n  80: web\n"

def morePortsText : String := "ports:\n  8080: proxy\n"

def ports : Dict := Dict.of [("ports", .dict [(.int 80, .str "web")])]

def morePorts : Dict := Dict.of [("ports", .dict [(.int 8080, .str "proxy")])]

def allPorts : Dict := Dict.of [("ports", .dict [(.int 80, .str "web"), (.int 8080, .str "proxy")])]

/-- Files with a mapping under numbers, which the local one adds to. -/
def portsFolder : Folder := (Tree.empty.write ["defaults.yaml"] (encodeUtf8 portsText.toList)).write
  ["local.yml"] (encodeUtf8 morePortsText.toList)

def datedText : String := "released: 2024-01-01\n"

def released : Dict := Dict.of [("released", .scalar (.date ⟨2024, 1, 1⟩))]

/-- A file of defaults that says when. -/
def datedFolder : Folder := Tree.empty.write ["defaults.yaml"] (encodeUtf8 datedText.toList)

end Files

end Config

end BuildPipeline
