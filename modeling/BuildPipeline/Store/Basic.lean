import BuildPipeline.Store.Directory

/-!
Stores of documents, in memory or in files. A store may refuse writes: `refuses n` says whether it
refuses write number `n`, counted from 1. Reading never changes a store.
-/
namespace BuildPipeline

inductive Backing
  | memory (s : MemoryStore)
  | directory (s : DirectoryStore)

namespace Backing

def get (b : Backing) (c k : String) : Except StoreError (Option Value) :=
  match b with
  | .memory s => .ok (s.get c k)
  | .directory s => s.get c k

def put (b : Backing) (c k : String) (v : Value) : Except StoreError Backing :=
  match b with
  | .memory s => .ok (.memory (s.put c k v))
  | .directory s => (s.put c k v).map .directory

def list (b : Backing) (c : String) : Except StoreError (List Value) :=
  match b with
  | .memory s => .ok (s.list c)
  | .directory s => s.list c

/-- Puts the documents of some collections. -/
def seed (b : Backing) (initial : Table String (Table String Value)) : Except StoreError Backing :=
  initial.foldlM (fun b c => c.2.foldlM (fun b e => b.put c.1 e.1 e.2) b) b

end Backing

structure Store where
  backing : Backing
  puts : Nat
  refuses : Nat → Bool

namespace Store

def ofBacking (b : Backing) (refuses : Nat → Bool) : Store := ⟨b, 0, refuses⟩

def get (s : Store) (c k : String) : Except StoreError (Option Value) := s.backing.get c k

def list (s : Store) (c : String) : Except StoreError (List Value) := s.backing.list c

/-- A write counts even if it fails; a write that fails leaves the documents as they were. -/
def put (c k : String) (v : Value) : EStateM StoreError Store Unit := do
  modify fun s => { s with puts := s.puts + 1 }
  let s ← getThe Store
  if s.refuses s.puts then throw (.unavailable c k)
  let backing ← liftExcept (s.backing.put c k v)
  set { s with backing }

end Store

end BuildPipeline
