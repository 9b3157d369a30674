import BuildPipeline.Text.Hex

/-!
Tags, and the tag that an unquoted scalar has by its looks: truth values, numbers in base 10, 2, 8,
16 and 60, dates and times, null, the merge key and the value key. What looks like none of them is
a text.
-/
namespace BuildPipeline.Yaml
open BuildPipeline.Text

inductive Tag
  | null
  | bool
  | int
  | float
  | binary
  | timestamp
  | omap
  | pairs
  | set
  | str
  | seq
  | map
  | merge
  | value
  | yaml
  | other (name : String)
  deriving DecidableEq

def Tag.vocabulary : String := "tag:yaml.org,2002:"

def Tag.core : List (Tag × String) :=
  [(.null, "null"), (.bool, "bool"), (.int, "int"), (.float, "float"), (.binary, "binary"),
    (.timestamp, "timestamp"), (.omap, "omap"), (.pairs, "pairs"), (.set, "set"), (.str, "str"),
    (.seq, "seq"), (.map, "map"), (.merge, "merge"), (.value, "value"), (.yaml, "yaml")]

def Tag.name : Tag → String
  | .other name => name
  | t => Tag.vocabulary ++ ((Tag.core.find? (·.1 == t)).map (·.2)).getD ""

def Tag.ofName (name : String) : Tag :=
  match Tag.core.find? fun e => Tag.vocabulary ++ e.2 == name with
  | some e => e.1
  | none => .other name

/-- The tag with the vocabulary abbreviated. -/
def Tag.short (t : Tag) : String := "!!" ++ ((Tag.core.find? (·.1 == t)).map (·.2)).getD ""

/-- Nothing is left, or only a line feed. -/
def atEnd : List Char → Bool
  | [] => true
  | ['\n'] => true
  | _ => false

def isOneOf (words : List String) (cs : List Char) : Bool :=
  words.any fun w => w.toList == cs || w.toList ++ ['\n'] == cs

def dropSign : List Char → List Char
  | '-' :: cs => cs
  | '+' :: cs => cs
  | cs => cs

def isDigitOrLow (c : Char) : Bool := isDecimalDigit c || c == '_'

def dropOver (p : Char → Bool) (cs : List Char) : List Char := cs.dropWhile p

/-- Drops one character of a class and then every one of another. -/
def dropRun (first rest : Char → Bool) : List Char → Option (List Char)
  | c :: cs => if first c then some (cs.dropWhile rest) else none
  | [] => none

/-- Drops parts such as `:30`, each of one digit or of two below sixty. -/
def dropSixties : Nat → List Char → List Char
  | 0, cs => cs
  | fuel + 1, cs =>
    match cs with
    | ':' :: a :: b :: r =>
      if '0' ≤ a && a ≤ '5' && isDecimalDigit b then dropSixties fuel r
      else if isDecimalDigit a then dropSixties fuel (b :: r)
      else cs
    | [':', a] => if isDecimalDigit a then [] else cs
    | cs => cs

def looksBool (cs : List Char) : Bool :=
  isOneOf ["yes", "Yes", "YES", "no", "No", "NO", "true", "True", "TRUE", "false", "False", "FALSE",
    "on", "On", "ON", "off", "Off", "OFF"] cs

def looksNull (cs : List Char) : Bool := cs.isEmpty || isOneOf ["~", "null", "Null", "NULL"] cs

/-- A base mark and at least one digit or low line. -/
def looksBased (mark : Char) (digit : Char → Bool) (cs : List Char) : Bool :=
  match dropSign cs with
  | '0' :: c :: d :: r => c == mark && digit d && atEnd (r.dropWhile digit)
  | _ => false

def looksOctal (cs : List Char) : Bool :=
  let digit (c : Char) := '0' ≤ c && c ≤ '7' || c == '_'
  match dropSign cs with
  | '0' :: d :: r => digit d && atEnd (r.dropWhile digit)
  | _ => false

def looksDecimal (cs : List Char) : Bool :=
  match dropSign cs with
  | '0' :: r => atEnd r
  | c :: r => isDecimalDigit c && atEnd (r.dropWhile isDigitOrLow)
  | [] => false

def looksSixties (cs : List Char) : Bool :=
  match dropSign cs with
  | c :: r =>
    let r := r.dropWhile isDigitOrLow
    isDecimalDigit c && c != '0' && r.head? == some ':' && atEnd (dropSixties r.length r)
  | [] => false

def looksInt (cs : List Char) : Bool :=
  looksBased 'b' (fun c => c == '0' || c == '1' || c == '_') cs || looksOctal cs
    || looksDecimal cs || looksBased 'x' (fun c => isHexDigit c || c == '_') cs || looksSixties cs

/-- An exponent with its sign, or nothing. -/
def looksExponent : List Char → Bool
  | c :: s :: d :: r =>
    (c == 'e' || c == 'E') && (s == '-' || s == '+') && isDecimalDigit d
      && atEnd (r.dropWhile isDecimalDigit)
  | cs => atEnd cs

def looksPointed (cs : List Char) : Bool :=
  match dropRun isDecimalDigit isDigitOrLow (dropSign cs) with
  | some ('.' :: r) => looksExponent (r.dropWhile isDigitOrLow)
  | _ => false

def looksFraction : List Char → Bool
  | '.' :: d :: r => isDecimalDigit d && looksExponent (r.dropWhile isDigitOrLow)
  | _ => false

def looksSixtiesPointed (cs : List Char) : Bool :=
  match dropRun isDecimalDigit isDigitOrLow (dropSign cs) with
  | some (':' :: r) =>
    match dropSixties (r.length + 1) (':' :: r) with
    | '.' :: r => atEnd (r.dropWhile isDigitOrLow)
    | _ => false
  | _ => false

def looksFloat (cs : List Char) : Bool :=
  looksPointed cs || looksFraction cs || looksSixtiesPointed cs
    || isOneOf [".inf", ".Inf", ".INF"] (dropSign cs) || isOneOf [".nan", ".NaN", ".NAN"] cs

/-- Digits at the front, as many as there are between two bounds. -/
def takeSome (least most : Nat) (cs : List Char) : Option (List Char × List Char) :=
  let ds := (cs.take most).takeWhile isDecimalDigit
  if least ≤ ds.length then some (ds, cs.drop ds.length) else none

def isSpaceOrTab (c : Char) : Bool := c == ' ' || c == '\t'

/-- The offset at the end of a timestamp: its sign, hours and minutes. -/
structure Zone where
  sign : Option Char
  hours : List Char
  minutes : List Char

/-- The parts of a timestamp as they are written. -/
structure Stamp where
  year : List Char
  month : List Char
  day : List Char
  /-- Hours, minutes, seconds and the fraction. -/
  clock : Option (List Char × List Char × List Char × List Char)
  zone : Option Zone

def readZone (cs : List Char) : Option (Option Zone) :=
  if atEnd cs then some none
  else match cs.dropWhile isSpaceOrTab with
    | 'Z' :: r => if atEnd r then some (some ⟨none, [], []⟩) else none
    | s :: r =>
      if s = '-' ∨ s = '+' then do
        let (h, r) ← takeSome 1 2 r
        match r with
        | ':' :: r =>
          let (m, r) ← takeSome 2 2 r
          if atEnd r then some (some ⟨some s, h, m⟩) else none
        | r => if atEnd r then some (some ⟨some s, h, []⟩) else none
      else none
    | [] => none

/-- A date, or a date and a time of day; months, days and hours may have one digit. -/
def readStamp (cs : List Char) : Option Stamp := do
  let (y, r) ← takeSome 4 4 cs
  let r ← if r.head? = some '-' then some (r.drop 1) else none
  let (mo, r) ← takeSome 1 2 r
  let r ← if r.head? = some '-' then some (r.drop 1) else none
  let (d, r) ← takeSome 1 2 r
  if atEnd r then some ⟨y, mo, d, none, none⟩
  else
    let r ← match r with
      | 'T' :: r => some r
      | 't' :: r => some r
      | c :: r => if isSpaceOrTab c then some (r.dropWhile isSpaceOrTab) else none
      | [] => none
    let (h, r) ← takeSome 1 2 r
    let r ← if r.head? = some ':' then some (r.drop 1) else none
    let (mi, r) ← takeSome 2 2 r
    let r ← if r.head? = some ':' then some (r.drop 1) else none
    let (s, r) ← takeSome 2 2 r
    let (f, r) := match r with
      | '.' :: r => (r.takeWhile isDecimalDigit, r.dropWhile isDecimalDigit)
      | r => ([], r)
    let zone ← readZone r
    some ⟨y, mo, d, some (h, mi, s, f), zone⟩

/-- A date alone shows two digits for the month and the day. -/
def looksTimestamp (cs : List Char) : Bool :=
  match readStamp cs with
  | some s => s.clock.isSome || s.month.length == 2 && s.day.length == 2
  | none => false

/-- The tag of an unquoted scalar. Only some first characters can begin each of them. -/
def Tag.ofPlain (cs : List Char) : Tag :=
  let starts (glyphs : String) := match cs.head? with
    | some c => glyphs.toList.contains c
    | none => false
  if starts "yYnNtTfFoO" && looksBool cs then .bool
  else if starts "-+0123456789." && looksFloat cs then .float
  else if starts "-+0123456789" && looksInt cs then .int
  else if isOneOf ["<<"] cs then .merge
  else if looksNull cs then .null
  else if starts "0123456789" && looksTimestamp cs then .timestamp
  else if isOneOf ["="] cs then .value
  else if isOneOf ["!", "&", "*"] cs then .yaml
  else .str

end BuildPipeline.Yaml
