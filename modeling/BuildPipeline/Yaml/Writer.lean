import BuildPipeline.Document.Value
import BuildPipeline.Number.Display
import BuildPipeline.Yaml.Style

/-!
Writing documents in block style: one entry a line, two spaces a level, lists at the level of their
key, entries in their own order. A key that is empty, longer than 127 characters with its tag or
broken over lines stands after a question mark on lines of its own.
-/
namespace BuildPipeline.Yaml

/-- A mark between the digits and the exponent keeps a float a float. -/
def floatText (x : Float) : String :=
  match Number.decode x with
  | .nan => ".nan"
  | .infinite negative => if negative then "-.inf" else ".inf"
  | .finite .. =>
    let cs := (Number.display x).toList
    if cs.contains 'e' ∧ !cs.contains '.' then
      String.ofList (cs.takeWhile (· != 'e') ++ ".0".toList ++ cs.dropWhile (· != 'e'))
    else String.ofList cs

/-- The tag and the text of a scalar. Octets have no text here and count as null. -/
def scalarParts : Scalar → Tag × String
  | .null | .bytes _ => (.null, "null")
  | .bool b => (.bool, if b then "true" else "false")
  | .int n => (.int, toString n)
  | .float x => (.float, floatText x)
  | .str s => (.str, s)
  | .date d => (.timestamp, d.iso)
  | .moment t => (.timestamp, t.text ' ')

def writeScalar (indentation : Nat) (simpleKey : Bool) (s : Scalar) : List Char :=
  let (tag, text) := scalarParts s
  let cs := text.toList
  (styleOf tag simpleKey cs).write indentation cs

/-- Whether a key stands on one line with its value. -/
def isSimpleKey (s : Scalar) : Bool :=
  let (tag, text) := scalarParts s
  let cs := text.toList
  !cs.isEmpty && !isMultiline cs && tag.short.length + cs.length < 128

def newline (indentation : Nat) : List Char := '\n' :: spaces indentation

def joinLines (indentation : Nat) : List (List Char) → List Char
  | [] => []
  | [l] => l
  | l :: ls => l ++ newline indentation ++ joinLines indentation ls

/-- What a value stands behind: a mark (dash, question mark or colon of a long key) or a key. -/
inductive Place
  | mark
  | key

/-- What the value of an entry stands behind. -/
def keyPlace (k : Scalar) : Place := if isSimpleKey k then .key else .mark

/-- Lines of a collection that has some. Behind a mark the first one goes on at the mark's line; a
mapping behind a key is set in by one level, a list behind a key is not. -/
def listLines (indentation : Nat) : Place → (Nat → List (List Char)) → List Char
  | .mark, ls => ' ' :: joinLines (indentation + 2) (ls (indentation + 2))
  | .key, ls => newline indentation ++ joinLines indentation (ls indentation)

def dictLines (indentation : Nat) : Place → (Nat → List (List Char)) → List Char
  | .mark, ls => ' ' :: joinLines (indentation + 2) (ls (indentation + 2))
  | .key, ls => newline (indentation + 2) ++ joinLines (indentation + 2) (ls (indentation + 2))

mutual

/-- A value behind a mark or a key that stands at an indentation. -/
def node (place : Place) (indentation : Nat) : Value → List Char
  | .scalar s => ' ' :: writeScalar (indentation + 2) false s
  | .list [] => " []".toList
  | .list (v :: vs) => listLines indentation place fun n => ('-' :: node .mark n v) :: items n vs
  | .pair k v =>
    listLines indentation place fun n => ['-' :: node .mark n k, '-' :: node .mark n v]
  | .dict [] => " \x7b\x7d".toList
  | .dict (e :: es) => dictLines indentation place fun n => entries n (e :: es)
  | .set _ | .loop _ => " null".toList

def items (indentation : Nat) : List Value → List (List Char)
  | [] => []
  | v :: vs => ('-' :: node .mark indentation v) :: items indentation vs

def entries (indentation : Nat) : List (Scalar × Value) → List (List Char)
  | [] => []
  | (k, v) :: es =>
    (if isSimpleKey k then writeScalar indentation true k ++ ':' :: node .key indentation v
      else '?' :: ' ' :: writeScalar (indentation + 2) false k ++ newline indentation
        ++ ':' :: node .mark indentation v) :: entries indentation es

end

def write (d : Dict) : String :=
  String.ofList (if d.isEmpty then "\x7b\x7d\n".toList
    else joinLines 0 (entries 0 d) ++ ['\n'])

end BuildPipeline.Yaml
