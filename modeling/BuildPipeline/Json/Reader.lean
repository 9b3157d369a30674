import BuildPipeline.Document.Value
import BuildPipeline.Text.Hex

/-!
Reading JSON texts. `NaN` and the infinities are numbers, the last of several equal keys wins, and
an error says what was expected and where. Places count from the end of the text while it is read:
`left` is the number of characters that an error leaves unread.
-/
namespace BuildPipeline.Json
open BuildPipeline.Text

inductive Flaw
  | value
  | property
  | colon
  | comma
  | extra
  | unterminated
  | control
  | escape
  | unicodeEscape
  | byteOrderMark
  deriving DecidableEq

def Flaw.message : Flaw → String
  | .value => "Expecting value"
  | .property => "Expecting property name enclosed in double quotes"
  | .colon => "Expecting ':' delimiter"
  | .comma => "Expecting ',' delimiter"
  | .extra => "Extra data"
  | .unterminated => "Unterminated string starting at"
  | .control => "Invalid control character at"
  | .escape => "Invalid \\escape"
  | .unicodeEscape => "Invalid \\uXXXX escape"
  | .byteOrderMark => "Unexpected UTF-8 BOM (decode using utf-8-sig)"

/-- Whole numbers have a bound on their digits. -/
inductive Trouble
  | syntaxAt (flaw : Flaw) (left : Nat)
  | tooLong (digits : Nat)
  deriving DecidableEq

/-- The greatest number of decimal digits of a whole number. -/
def maxDigits : Nat := 4300

def isSpace (c : Char) : Bool := c == ' ' || c == '\t' || c == '\n' || c == '\r'

def skip (cs : List Char) : List Char := cs.dropWhile isSpace

def isHigh (n : Nat) : Bool := 0xD800 ≤ n && n < 0xDC00

def isLow (n : Nat) : Bool := 0xDC00 ≤ n && n < 0xE000

/-- Four hexadecimal digits with at least one character behind them; `start` is what is left at the
character that an error points to. -/
def unicodeDigits (start : Nat) : List Char → Except Trouble (Nat × List Char)
  | a :: b :: c :: d :: e :: r =>
    if [a, b, c, d].all isHexDigit then .ok (hexValue [a, b, c, d], e :: r)
    else .error (.syntaxAt .unicodeEscape start)
  | _ => .error (.syntaxAt .unicodeEscape start)

/-- A character by number. Half of a surrogate pair alone is replaced. -/
def unicodeEscape (cs : List Char) : Except Trouble (Char × List Char) := do
  let (n, r) ← unicodeDigits (cs.length + 1) cs
  if isHigh n then
    match r with
    | '\\' :: 'u' :: s =>
      if 4 < s.length then
        let (m, t) ← unicodeDigits (s.length + 1) s
        if isLow m then .ok (Char.ofNat (0x10000 + (n - 0xD800) * 0x400 + (m - 0xDC00)), t)
        else .ok ('\uFFFD', r)
      else .ok ('\uFFFD', r)
    | _ => .ok ('\uFFFD', r)
  else if isLow n then .ok ('\uFFFD', r)
  else .ok (Char.ofNat n, r)

def shortEscape? : Char → Option Char
  | '"' => some '"'
  | '\\' => some '\\'
  | '/' => some '/'
  | 'b' => some '\x08'
  | 'f' => some '\x0c'
  | 'n' => some '\n'
  | 'r' => some '\r'
  | 't' => some '\t'
  | _ => none

/-- The rest of a text whose opening quote leaves `start` characters. -/
def stringBody (start : Nat) : Nat → List Char → Except Trouble (List Char × List Char)
  | 0, _ => .error (.syntaxAt .unterminated start)
  | fuel + 1, cs =>
    match cs with
    | [] => .error (.syntaxAt .unterminated start)
    | '"' :: r => .ok ([], r)
    | '\\' :: r =>
      match r with
      | [] => .error (.syntaxAt .unterminated start)
      | 'u' :: s => do
        let (c, t) ← unicodeEscape s
        let (out, t) ← stringBody start fuel t
        return (c :: out, t)
      | e :: s =>
        match shortEscape? e with
        | none => .error (.syntaxAt .escape cs.length)
        | some c => do
          let (out, t) ← stringBody start fuel s
          return (c :: out, t)
    | c :: r =>
      if c.toNat ≤ 0x1F then .error (.syntaxAt .control cs.length)
      else do
        let (out, t) ← stringBody start fuel r
        return (c :: out, t)

/-- A text after its opening quote. -/
def string (cs : List Char) : Except Trouble (String × List Char) := do
  let (out, r) ← stringBody (cs.length + 1) (cs.length + 1) cs
  return (String.ofList out, r)

def isDigit (c : Char) : Bool := isDecimalDigit c

/-- Digits after a point, if the point has some. -/
def fractionDigits : List Char → List Char × List Char
  | '.' :: d :: r =>
    if isDigit d then (d :: r.takeWhile isDigit, r.dropWhile isDigit) else ([], '.' :: d :: r)
  | cs => ([], cs)

/-- The exponent, if a mark is followed by one. -/
def exponentPart (cs : List Char) : Option (Int × List Char) :=
  match cs with
  | c :: r =>
    if c = 'e' ∨ c = 'E' then
      let (negative, s) := match r with
        | '-' :: s => (true, s)
        | '+' :: s => (false, s)
        | s => (false, s)
      let ds := s.takeWhile isDigit
      if ds.isEmpty then none
      else some (Number.signed negative (decimalValue ds), s.dropWhile isDigit)
    else none
  | [] => none

/-- A number at the front, with nothing said about what follows. -/
def number (cs : List Char) : Except Trouble (Scalar × List Char) :=
  let (negative, body) := match cs with
    | '-' :: r => (true, r)
    | r => (false, r)
  let (ws, r) := match body with
    | '0' :: r => (['0'], r)
    | r => (r.takeWhile isDigit, r.dropWhile isDigit)
  if ws.isEmpty then .error (.syntaxAt .value cs.length)
  else
    let (fs, r) := fractionDigits r
    match exponentPart r with
    | some (e, r) =>
      .ok (.float (Number.ofDecimal negative (decimalValue (ws ++ fs)) (e - fs.length)), r)
    | none =>
      if fs.isEmpty then
        if maxDigits < ws.length then .error (.tooLong ws.length)
        else .ok (.int (Number.signed negative (decimalValue ws)), r)
      else .ok (.float (Number.ofDecimal negative (decimalValue (ws ++ fs)) (-fs.length)), r)

/-- What a word stands for. -/
def words : List (List Char × Scalar) :=
  [("null".toList, .null), ("true".toList, .bool true), ("false".toList, .bool false),
    ("NaN".toList, .float Number.nan), ("Infinity".toList, .float (Number.infinity false)),
    ("-Infinity".toList, .float (Number.infinity true))]

def word? (cs : List Char) : Option (Scalar × List Char) :=
  words.findSome? fun w => if w.1.isPrefixOf cs then some (w.2, cs.drop w.1.length) else none

mutual

def value : Nat → List Char → Except Trouble (Value × List Char)
  | 0, cs => .error (.syntaxAt .value cs.length)
  | fuel + 1, cs =>
    match cs with
    | '"' :: r => do
      let (s, r) ← string r
      return (.str s, r)
    | '\x7b' :: r =>
      match skip r with
      | '\x7d' :: r => .ok (.dict [], r)
      | r => do
        let (es, r) ← members fuel [] r
        return (.dict es, r)
    | '[' :: r =>
      match skip r with
      | ']' :: r => .ok (.list [], r)
      | r => do
        let (vs, r) ← elements fuel r
        return (.list vs, r)
    | cs =>
      match word? cs with
      | some (s, r) => .ok (.scalar s, r)
      | none => do
        let (s, r) ← number cs
        return (.scalar s, r)

/-- The elements of an array from one of them on. -/
def elements : Nat → List Char → Except Trouble (List Value × List Char)
  | 0, cs => .error (.syntaxAt .value cs.length)
  | fuel + 1, cs => do
    let (v, r) ← value fuel cs
    match skip r with
    | ']' :: r => .ok ([v], r)
    | ',' :: r =>
      let (vs, r) ← elements fuel (skip r)
      return (v :: vs, r)
    | r => .error (.syntaxAt .comma r.length)

/-- The members of an object from one of them on, added to those before. -/
def members : Nat → Dict → List Char → Except Trouble (Dict × List Char)
  | 0, _, cs => .error (.syntaxAt .property cs.length)
  | fuel + 1, es, cs =>
    match cs with
    | '"' :: r => do
      let (k, r) ← string r
      match skip r with
      | ':' :: r =>
        let (v, r) ← value fuel (skip r)
        let es := Table.insert es (.str k) v
        match skip r with
        | '\x7d' :: r => .ok (es, r)
        | ',' :: r => members fuel es (skip r)
        | r => .error (.syntaxAt .comma r.length)
      | r => .error (.syntaxAt .colon r.length)
    | cs => .error (.syntaxAt .property cs.length)

end

/-- A value and nothing but white space around it. -/
def document (cs : List Char) : Except Trouble Value :=
  match cs with
  | '\uFEFF' :: _ => .error (.syntaxAt .byteOrderMark cs.length)
  | _ => do
    let (v, r) ← value (cs.length + 1) (skip cs)
    match skip r with
    | [] => .ok v
    | r => .error (.syntaxAt .extra r.length)

/-- What went wrong and the line, the column and the place in the whole text. -/
inductive ReadError
  | syntaxAt (flaw : Flaw) (line column place : Nat)
  | tooLong (digits : Nat)
  deriving DecidableEq

def Trouble.locate (cs : List Char) : Trouble → ReadError
  | .tooLong n => .tooLong n
  | .syntaxAt flaw left =>
    let before := cs.take (cs.length - left)
    let column := (before.reverse.takeWhile (· != '\n')).length + 1
    .syntaxAt flaw (before.count '\n' + 1) column before.length

def ReadError.kind : ReadError → String
  | .syntaxAt .. => "JSONDecodeError"
  | .tooLong _ => "ValueError"

def ReadError.message : ReadError → String
  | .syntaxAt flaw line column place =>
    s!"{flaw.message}: line {line} column {column} (char {place})"
  | .tooLong n =>
    "Exceeds the limit (4300 digits) for integer string conversion: value has " ++ toString n
      ++ " digits; use sys.set_int_max_str_digits() to increase the limit"

def read (s : String) : Except ReadError Value :=
  let cs := s.toList
  (document cs).mapError (·.locate cs)

end BuildPipeline.Json
