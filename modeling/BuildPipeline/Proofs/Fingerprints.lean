import BuildPipeline.Config.Fingerprint
import BuildPipeline.Proofs.Json.ReadBack
import BuildPipeline.Proofs.Json.WrittenDocuments
import Mathlib.Data.List.Permutation

/-!
What a fingerprint tells apart. The canonical text of a portable document stands for the document up
to the order of its keys, and so does its digest, unless two texts collide.
-/

namespace BuildPipeline

open Yaml (Portable)

namespace Text

variable {c d : Char} {s t : List Nat}

theorem encodeChar_ne_nil (c : Char) : encodeChar c ≠ [] := by
  rw [encodeChar]
  split_ifs <;> simp

/-- No sequence of octets starts with those of two characters. -/
theorem encodeChar_append_inj (h : encodeChar c ++ s = encodeChar d ++ t) : c = d ∧ s = t := by
  suffices hboth : c.toNat = d.toNat ∧ s = t from ⟨Char.toNat_inj.1 hboth.1, hboth.2⟩
  simp only [encodeChar] at h
  -- Characters with different numbers of octets differ in the first one already.
  split_ifs at h <;> simp only [List.cons_append, List.nil_append, List.cons.injEq] at h
  all_goals first
    | omega
    | exact ⟨by omega, by simp_all⟩

theorem encodeUtf8_injective : Function.Injective encodeUtf8 := by
  intro cs ds h
  induction cs generalizing ds with
  | nil =>
    cases ds with
    | nil => rfl
    | cons d ds => exact absurd (List.append_eq_nil_iff.1 h.symm).1 (encodeChar_ne_nil d)
  | cons c cs ih =>
    cases ds with
    | nil => exact absurd (List.append_eq_nil_iff.1 h).1 (encodeChar_ne_nil c)
    | cons d ds =>
      obtain ⟨rfl, hrest⟩ := encodeChar_append_inj h
      rw [ih hrest]

end Text

/-- Different octets with one digest. -/
structure Collision (bs bs' : List Nat) : Prop where
  octets : bs ≠ bs'
  digest : Digest.sha256 bs = Digest.sha256 bs'

variable {d e : Dict} {text text' : String}

theorem fingerprint_of_canonical (h : Json.canonical d = .ok text) :
    fingerprint (.dict d) = .ok (Digest.sha256 (Text.encodeUtf8 text.toList)) := by
  rw [fingerprint, h]
  rfl

theorem canonical_of_reordered (hd : Portable (.dict d)) (he : Portable (.dict e))
    (h : Value.Reordered (.dict d) (.dict e)) : Json.canonical d = Json.canonical e :=
  (Json.write_of_reordered (.of_portable hd) (.of_portable he) h).symm

theorem reordered_or_collision (hd : Portable (.dict d)) (he : Portable (.dict e))
    (hdText : Json.canonical d = .ok text) (heText : Json.canonical e = .ok text')
    (h : fingerprint (.dict d) = fingerprint (.dict e)) : Value.Reordered (.dict d) (.dict e)
      ∨ Collision (Text.encodeUtf8 text.toList) (Text.encodeUtf8 text'.toList) := by
  rw [fingerprint_of_canonical hdText, fingerprint_of_canonical heText] at h
  by_cases hoctets : Text.encodeUtf8 text.toList = Text.encodeUtf8 text'.toList
  · have htext := String.toList_inj.1 (Text.encodeUtf8_injective hoctets)
    rw [← htext] at heText
    exact .inl ((Json.write_eq_iff_reordered hd he hdText).1 heText)
  · exact .inr ⟨hoctets, Except.ok.inj h⟩

/-- A portable document has a canonical text, and a fingerprint, unless a whole number in it has too
many digits.  Another one has the same text exactly if it is the document reordered.  Reordered
documents have one fingerprint, and if two documents have one fingerprint, they are reordered or
their texts collide. -/
theorem canonical_iff_reordered (hd : Portable (.dict d)) (he : Portable (.dict e)) :
    ((∃ text, Json.canonical d = .ok text
        ∧ fingerprint (.dict d) = .ok (Digest.sha256 (Text.encodeUtf8 text.toList)))
      ↔ Value.Short (.dict d))
    ∧ (∀ text, Json.canonical d = .ok text →
      (Json.canonical e = .ok text ↔ Value.Reordered (.dict d) (.dict e)))
    ∧ (Value.Reordered (.dict d) (.dict e) → fingerprint (.dict d) = fingerprint (.dict e))
    ∧ ∀ text text', Json.canonical d = .ok text → Json.canonical e = .ok text' →
      fingerprint (.dict d) = fingerprint (.dict e) → Value.Reordered (.dict d) (.dict e)
        ∨ Collision (Text.encodeUtf8 text.toList) (Text.encodeUtf8 text'.toList) := by
  refine ⟨?_, fun text h => Json.write_eq_iff_reordered hd he h, fun h => ?_,
    fun text text' => reordered_or_collision hd he⟩
  · rw [← Json.exists_write_iff (l := .compact) hd]
    exact exists_congr fun text => and_iff_left_of_imp fingerprint_of_canonical
  · rw [fingerprint, fingerprint, canonical_of_reordered hd he h]

def shelved : Dict := Dict.of [("a", .list [.int 1, .bool true, .null]),
  ("b", .ofTable [("x", .str "\u00e9\n"), ("y", .int (-20))])]

/-- The entries of `shelved` in another order at both depths. -/
def shuffled : Dict := Dict.of [("b", .ofTable [("y", .int (-20)), ("x", .str "\u00e9\n")]),
  ("a", .list [.int 1, .bool true, .null])]

/-- `shelved` with a number in place of a truth value. -/
def counted : Dict := Dict.of [("a", .list [.int 1, .int 1, .null]),
  ("b", .ofTable [("x", .str "\u00e9\n"), ("y", .int (-20))])]

theorem canonical_shelved : Portable (.dict shelved) ∧ Portable (.dict shuffled)
    ∧ Portable (.dict counted)
    ∧ Json.canonical shelved
      = .ok "\x7b\"a\":[1,true,null],\"b\":\x7b\"x\":\"\u00e9\\n\",\"y\":-20\x7d\x7d"
    ∧ Value.Short (.dict shelved)
    ∧ Value.Reordered (.dict shelved) (.dict shuffled)
    ∧ fingerprint (.dict shelved) = fingerprint (.dict shuffled)
    ∧ ¬Value.Reordered (.dict shelved) (.dict counted) := by
  have hshelved : Portable (.dict shelved) := by decide
  have hshuffled : Portable (.dict shuffled) := by decide
  have hcounted : Portable (.dict counted) := by decide
  have htext : Json.canonical shelved
      = .ok "\x7b\"a\":[1,true,null],\"b\":\x7b\"x\":\"\u00e9\\n\",\"y\":-20\x7d\x7d" := by cbv
  have htext' : Json.canonical shuffled = Json.canonical shelved := by cbv
  have hother : Json.canonical counted
      = .ok "\x7b\"a\":[1,1,null],\"b\":\x7b\"x\":\"\u00e9\\n\",\"y\":-20\x7d\x7d" := by cbv
  obtain ⟨hwritten, hsame, hdigest, -⟩ := canonical_iff_reordered hshelved hshuffled
  have hreordered := (hsame _ htext).1 (htext'.trans htext)
  refine ⟨hshelved, hshuffled, hcounted, htext, hwritten.1 ⟨_, htext, ?_⟩, hreordered,
    hdigest hreordered, fun h => ?_⟩
  · exact fingerprint_of_canonical htext
  have hsame' := ((canonical_iff_reordered hshelved hcounted).2.1 _ htext).2 h
  exact absurd (hsame'.symm.trans hother) (by decide)

end BuildPipeline
