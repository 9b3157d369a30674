import BuildPipeline.Files.Tree
import BuildPipeline.Store.Error
import BuildPipeline.Store.Memory
import BuildPipeline.Text.Newline

/-!
Documents in files: one folder for each collection, one indented JSON text for each document. Names
of collections and keys that are written or looked up stay inside the store. Listing takes a
collection for a path as it is.
-/
namespace BuildPipeline
open BuildPipeline.Files

/-- The folder `root` of a tree holds the store. -/
structure DirectoryStore where
  root : Place
  tree : Files.Tree String

namespace DirectoryStore

def empty (root : Place) : DirectoryStore :=
  ⟨root, (Files.Tree.above root ++ [root]).foldl Files.Tree.addFolder .empty⟩

def isNameChar (c : Char) : Bool :=
  'a' ≤ c && c ≤ 'z' || 'A' ≤ c && c ≤ 'Z' || '0' ≤ c && c ≤ '9' || c == '.' || c == '_' || c == '-'

/-- A text without the line feed that it may end in. -/
def withoutLastLineFeed (cs : List Char) : List Char :=
  if cs.getLast? = some '\n' then cs.dropLast else cs

/-- Names are not empty, lead nowhere and hold no separators. One line feed may end a name. -/
def isSafe (name : String) : Bool :=
  let cs := withoutLastLineFeed name.toList
  !cs.isEmpty && cs.all isNameChar && name != "." && name != ".."

def checkName (name : String) : Except StoreError Unit :=
  if isSafe name then .ok () else .error (.invalidName name)

def fileName (key : String) : String := key ++ ".json"

/-- Where a document is kept. -/
def place (s : DirectoryStore) (c k : String) : Except StoreError Place := do
  checkName c
  checkName k
  return s.root ++ [c, fileName k]

/-- Lines end in line feeds when a file is read. -/
def load (text : String) : Except StoreError Value :=
  (Json.read (String.ofList (Text.lineFeeds text.toList))).mapError .reading

def get (s : DirectoryStore) (c k : String) : Except StoreError (Option Value) := do
  match s.tree.file? (← s.place c k) with
  | none => return none
  | some text => return (← load text).present?

def put (s : DirectoryStore) (c k : String) (v : Value) : Except StoreError DirectoryStore := do
  let place ← s.place c k
  let text ← (Json.write .indented v).mapError .writing
  return { s with tree := s.tree.write place text }

/-- Where a collection is looked for. -/
def folderPath (s : DirectoryStore) (c : String) : Path := ⟨"", s.root⟩ ++ Path.ofText c

def isDocumentName (name : String) : Bool := ".json".toList.isSuffixOf name.toList

/-- The names of the documents in a folder, in order. -/
def documentNames (t : Files.Tree String) (folder : Place) : List String :=
  ((t.names folder).filter isDocumentName).mergeSort fun a b => decide (a ≤ b)

def loadAt (t : Files.Tree String) (path : Path) (folder : Place) (name : String) :
    Except StoreError Value :=
  match t.file? (folder ++ [name]) with
  | some text => load text
  | none => .error (.opening (.folder (path ++ ⟨"", [name]⟩).text))

/-- The documents of a collection in the order of their file names. -/
def list (s : DirectoryStore) (c : String) : Except StoreError (List Value) :=
  let path := s.folderPath c
  match s.tree.find path with
  | some (.folder folder) => (documentNames s.tree folder).mapM (loadAt s.tree path folder)
  | _ => .ok []

/-- The text of a file of the store. -/
def fileText (s : DirectoryStore) (c file : String) : Except StoreError String :=
  let path := s.folderPath c ++ Path.ofText file
  match s.tree.find path with
  | some (.file text) => .ok (String.ofList (Text.lineFeeds text.toList))
  | some (.folder _) => .error (.opening (.folder path.text))
  | none => .error (.opening (.missing path.text))

/-- The store with a file that was written past it. -/
def withFile (s : DirectoryStore) (c file text : String) : DirectoryStore :=
  { s with tree := s.tree.write (s.folderPath c ++ Path.ofText file).steps text }

end DirectoryStore

end BuildPipeline
