import BuildPipeline.Files.Path
import BuildPipeline.Table

/-!
Folders and the files in them. A place is the list of names that leads to it from the top folder,
and nothing is known above that folder. `find` follows a path the way a system does: each step
needs a folder to start from.
-/
namespace BuildPipeline.Files

abbrev Place := List String

structure Tree (α : Type) where
  files : Table Place α
  folders : List Place

inductive Entry (α : Type)
  | file (a : α)
  | folder (place : Place)
  deriving DecidableEq

namespace Tree
variable {α : Type}

def empty : Tree α := ⟨[], []⟩

/-- The places of the folders that a place lies in. -/
def above (place : Place) : List Place := (List.range place.length).map place.take

def addFolder (t : Tree α) (place : Place) : Tree α :=
  if t.folders.contains place then t else { t with folders := t.folders ++ [place] }

/-- Makes a file and every folder on the way to it. -/
def write (t : Tree α) (place : Place) (a : α) : Tree α :=
  let t := (above place).foldl addFolder t
  { t with files := Table.insert t.files place a }

def file? (t : Tree α) (place : Place) : Option α := Table.get? t.files place

def isFolder (t : Tree α) (place : Place) : Bool := place == [] || t.folders.contains place

def holds (t : Tree α) (place : Place) : Bool := t.isFolder place || (t.file? place).isSome

/-- Where the steps of a path lead from a place. -/
def walk (t : Tree α) : Place → List String → Option Place
  | place, [] => if t.holds place then some place else none
  | place, s :: ss =>
    if !t.isFolder place then none
    else if s = ".." then (if place = [] then none else walk t place.dropLast ss)
    else walk t (place ++ [s]) ss

/-- What stands at a path from the top folder. -/
def find (t : Tree α) (p : Path) : Option (Entry α) :=
  if p.root = "" then
    (t.walk [] p.steps).bind fun place =>
      if t.isFolder place then some (.folder place) else (t.file? place).map .file
  else none

/-- The name of what lies directly in a folder. -/
def nameIn (folder place : Place) : Option String :=
  if place.dropLast = folder then place.getLast? else none

/-- The names of what lies directly in a folder. -/
def names (t : Tree α) (folder : Place) : List String :=
  (t.folders ++ t.files.keys).filterMap (nameIn folder)

end Tree

end BuildPipeline.Files
