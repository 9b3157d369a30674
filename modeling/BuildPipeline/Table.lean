/-!
Tables keep their entries in the order in which the keys first came. Writing to a key that is
there replaces its value in place. `get?_insert` says what a write shows to a later look-up.
-/
namespace BuildPipeline

abbrev Table (κ α : Type) := List (κ × α)

namespace Table
variable {κ α β : Type}

def empty : Table κ α := []

def keys (t : Table κ α) : List κ := t.map (·.1)

def values (t : Table κ α) : List α := t.map (·.2)

def mapValues (f : α → β) (t : Table κ α) : Table κ β := t.map fun e => (e.1, f e.2)

variable [BEq κ]

def get? : Table κ α → κ → Option α
  | [], _ => none
  | (k', a) :: t, k => if k' == k then some a else get? t k

def getD (t : Table κ α) (k : κ) (a : α) : α := (get? t k).getD a

def contains (t : Table κ α) (k : κ) : Bool := (get? t k).isSome

/-- A key that is there keeps its place and its first spelling. -/
def insert : Table κ α → κ → α → Table κ α
  | [], k, a => [(k, a)]
  | (k', a') :: t, k, a => if k' == k then (k', a) :: t else (k', a') :: insert t k a

/-- Leaves a key that is there alone. -/
def insertNew (t : Table κ α) (k : κ) (a : α) : Table κ α :=
  if contains t k then t else t ++ [(k, a)]

/-- The second table wins, key by key. -/
def union (t u : Table κ α) : Table κ α := u.foldl (fun t e => insert t e.1 e.2) t

def ofList (es : List (κ × α)) : Table κ α := union [] es

/-- Changes the entry of a key, which starts as `a` when it is missing. -/
def modify (t : Table κ α) (k : κ) (a : α) (f : α → α) : Table κ α :=
  insert t k (f (getD t k a))

@[simp] theorem get?_nil (k : κ) : get? ([] : Table κ α) k = none := rfl

theorem get?_insert [EquivBEq κ] (t : Table κ α) (k k' : κ) (a : α) :
    get? (insert t k a) k' = if k == k' then some a else get? t k' := by
  induction t with
  | nil => simp [insert, get?]
  | cons e t ih =>
    obtain ⟨j, b⟩ := e
    by_cases h : (j == k) = true
    · by_cases h' : (k == k') = true
      · simp [insert, get?, h, h', BEq.trans h h']
      · have hj : (j == k') = false := by
          cases hj : j == k' with
          | false => rfl
          | true => exact absurd (BEq.trans (BEq.symm h) hj) h'
        simp [insert, get?, h, h', hj]
    · by_cases hj : (j == k') = true
      · have h' : (k == k') = false := by
          cases h' : k == k' with
          | false => rfl
          | true => exact absurd (BEq.trans hj (BEq.symm h')) h
        simp [insert, get?, h, h', hj]
      · simp [insert, get?, h, hj, ih]

end Table

end BuildPipeline
