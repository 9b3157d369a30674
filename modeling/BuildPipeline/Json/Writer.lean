import BuildPipeline.Json.KeyOrder
import BuildPipeline.Json.Reader
import BuildPipeline.Number.Display

/-!
Writing JSON texts with sorted keys, either compact or indented by two spaces. Characters stand as
they are unless JSON asks for an escape. Equal documents have one compact text, whatever the order
of their keys.
-/
namespace BuildPipeline.Json
open BuildPipeline.Text

inductive WriteError
  | order (e : OrderError)
  | badKey (kind : Kind)
  | notSerializable (kind : Kind)
  | circular
  | tooLong
  deriving DecidableEq

def WriteError.kind : WriteError → String
  | .circular | .tooLong => "ValueError"
  | _ => "TypeError"

def WriteError.message : WriteError → String
  | .order e => e.message
  | .badKey k => s!"keys must be str, int, float, bool or None, not {k.fullName}"
  | .notSerializable k => s!"Object of type {k.name} is not JSON serializable"
  | .circular => "Circular reference detected"
  | .tooLong =>
    "Exceeds the limit (4300 digits) for integer string conversion; "
      ++ "use sys.set_int_max_str_digits() to increase the limit"

def escapeChar (c : Char) : List Char :=
  if c = '"' then ['\\', '"']
  else if c = '\\' then ['\\', '\\']
  else if c = '\n' then ['\\', 'n']
  else if c = '\r' then ['\\', 'r']
  else if c = '\t' then ['\\', 't']
  else if c = '\x0c' then ['\\', 'f']
  else if c = '\x08' then ['\\', 'b']
  else if c.toNat < 0x20 then '\\' :: 'u' :: hex 4 c.toNat
  else [c]

def quote (s : String) : List Char := '"' :: s.toList.flatMap escapeChar ++ ['"']

def intText (n : Int) : Except WriteError (List Char) :=
  let digits := (toString n.natAbs).toList
  if maxDigits < digits.length then .error .tooLong
  else .ok (if n < 0 then '-' :: digits else digits)

def floatText (x : Float) : List Char :=
  match Number.decode x with
  | .nan => "NaN".toList
  | .infinite negative => (if negative then "-Infinity" else "Infinity").toList
  | .finite .. => (Number.display x).toList

def scalar : Scalar → Except WriteError (List Char)
  | .null => .ok "null".toList
  | .bool b => .ok (if b then "true" else "false").toList
  | .int n => intText n
  | .float x => .ok (floatText x)
  | .str s => .ok (quote s)
  | s => .error (.notSerializable s.kind)

/-- Keys that are no texts are written as texts. -/
def key : Scalar → Except WriteError (List Char)
  | .str s => .ok (quote s)
  | .bytes _ => .error (.badKey .bytes)
  | .date _ => .error (.badKey .date)
  | .moment _ => .error (.badKey .moment)
  | s => do
    let cs ← scalar s
    return '"' :: cs ++ ['"']

inductive Layout
  | compact
  | indented
  deriving DecidableEq

/-- What stands before an element at a depth. -/
def Layout.gap : Layout → Nat → List Char
  | .compact, _ => []
  | .indented, depth => '\n' :: List.replicate (2 * depth) ' '

def Layout.colon : Layout → List Char
  | .compact => [':']
  | .indented => [':', ' ']

/-- Elements between brackets, with commas between them. -/
def Layout.enclose (l : Layout) (depth : Nat) (opening closing : Char) :
    List (List Char) → List Char
  | [] => [opening, closing]
  | t :: ts =>
    opening :: l.gap (depth + 1) ++ t
      ++ ts.flatMap (fun t => ',' :: l.gap (depth + 1) ++ t)
      ++ l.gap depth ++ [closing]

/-- One member of an object: its key is checked before its value. -/
def member (l : Layout) (e : Scalar × Except WriteError (List Char)) :
    Except WriteError (List Char) := do
  let k ← key e.1
  let v ← e.2
  return k ++ l.colon ++ v

mutual

def encode (l : Layout) (depth : Nat) : Value → Except WriteError (List Char)
  | .scalar s => scalar s
  | .list vs => return l.enclose depth '[' ']' (← encodeList l (depth + 1) vs)
  | .pair k v => do
    let k ← encode l (depth + 1) k
    let v ← encode l (depth + 1) v
    return l.enclose depth '[' ']' [k, v]
  | .dict es => do
    let es ← (sortEntries (encodeEntries l (depth + 1) es)).mapError .order
    return l.enclose depth '\x7b' '\x7d' (← es.mapM (member l))
  | .set _ => .error (.notSerializable .set)
  | .loop _ => .error .circular

def encodeList (l : Layout) (depth : Nat) : List Value → Except WriteError (List (List Char))
  | [] => .ok []
  | v :: vs => do
    let t ← encode l depth v
    return t :: (← encodeList l depth vs)

def encodeEntries (l : Layout) (depth : Nat) :
    List (Scalar × Value) → List (Scalar × Except WriteError (List Char))
  | [] => []
  | (k, v) :: es => (k, encode l depth v) :: encodeEntries l depth es

end

def write (l : Layout) (v : Value) : Except WriteError String :=
  (encode l 0 v).map String.ofList

/-- The canonical text of a document: compact, with sorted keys. -/
def canonical (d : Dict) : Except WriteError String := write .compact (.dict d)

end BuildPipeline.Json
