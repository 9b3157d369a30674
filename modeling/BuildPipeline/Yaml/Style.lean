import BuildPipeline.Text.Hex
import BuildPipeline.Yaml.Tag

/-!
How a scalar is written: without quotes where its looks keep its tag and nothing in it could be
taken for structure, in single quotes where every character shows as it is, in double quotes
otherwise. No style ever folds a line.
-/
namespace BuildPipeline.Yaml
open BuildPipeline.Text

def isBreak (c : Char) : Bool :=
  c == '\n' || c == '\u0085' || c == '\u2028' || c == '\u2029'

/-- Whether a character ends an indicator: white space, a line break or the null character. -/
def separates (c : Char) : Bool :=
  c == '\x00' || c == ' ' || c == '\t' || c == '\r' || isBreak c

/-- Whether a character shows as it is. -/
def isPlainGlyph (c : Char) : Bool :=
  let n := c.toNat
  c == '\n' || 0x20 ≤ n && n ≤ 0x7E
    || (n == 0x85 || 0xA0 ≤ n && n ≤ 0xFFFD || 0x10000 ≤ n && n < 0x10FFFF) && n != 0xFEFF

/-- Consecutive characters, with `none` before the first. -/
def neighbours : Option Char → List Char → List (Option Char × Char)
  | _, [] => []
  | p, c :: cs => (p, c) :: neighbours (some c) cs

def isMultiline (cs : List Char) : Bool := cs.any isBreak

def hasSpecial (cs : List Char) : Bool := cs.any (!isPlainGlyph ·)

def pairUp (p q : Char → Bool) (cs : List Char) : Bool :=
  (neighbours none cs).any fun e => (e.1.map p).getD false && q e.2

/-- A space right after a line break. -/
def hasBreakSpace (cs : List Char) : Bool := pairUp isBreak (· == ' ') cs

/-- A line break right after a space. -/
def hasSpaceBreak (cs : List Char) : Bool := pairUp (· == ' ') isBreak cs

def startsOrEnds (p : Char → Bool) (cs : List Char) : Bool :=
  (cs.head?.map p).getD false || (cs.getLast?.map p).getD false

/-- A colon before a separator, or a number sign after one, inside a text. -/
def hasIndicatorWithin : Option Char → List Char → Bool
  | _, [] => false
  | p, c :: cs =>
    let endsHere := (cs.head?.map separates).getD true
    let startsHere := (p.map separates).getD true
    c == ':' && endsHere || c == '#' && startsHere || hasIndicatorWithin (some c) cs

/-- What at the front of a text could be taken for structure. -/
def hasIndicatorInFront : List Char → Bool
  | '-' :: '-' :: '-' :: _ => true
  | '.' :: '.' :: '.' :: _ => true
  | c :: cs =>
    "#,[]\x7b\x7d&*!|>'\"%@\x60".toList.contains c
      || (c == '?' || c == '-') && (cs.head?.map separates).getD true
  | [] => false

/-- Whether a text stands for itself without quotes. -/
def allowsPlain (cs : List Char) : Bool :=
  cs.isEmpty || !(startsOrEnds (· == ' ') cs || isMultiline cs || hasSpecial cs
    || hasIndicatorInFront cs || hasIndicatorWithin none cs)

def allowsSingle (cs : List Char) : Bool :=
  !(hasBreakSpace cs || hasSpaceBreak cs || hasSpecial cs)

inductive Style
  | plain
  | single
  | double
  deriving DecidableEq

/-- The style of a scalar. Keys on one line with their value are never empty without quotes and
never hold a line break. -/
def styleOf (tag : Tag) (simpleKey : Bool) (cs : List Char) : Style :=
  if tag = Tag.ofPlain cs ∧ !(simpleKey && (cs.isEmpty || isMultiline cs)) ∧ allowsPlain cs then
    .plain
  else if allowsSingle cs ∧ !(simpleKey && isMultiline cs) then .single
  else .double

def spaces (n : Nat) : List Char := List.replicate n ' '

/-- A line feed ends its line; any other break stands as it is. -/
def writeBreak (c : Char) : List Char := if c == '\n' then ['\n'] else [c]

/-- Single quotes: a quote is doubled, and a run of line breaks that begins with a line feed takes
one more. Text goes on at the indentation. -/
def singleBody (indentation : Nat) : Option Char → List Char → List Char
  | some p, [] => if isBreak p then spaces indentation else []
  | none, [] => []
  | p, c :: cs =>
    let afterBreak := (p.map isBreak).getD false
    let lead :=
      if isBreak c then (if !afterBreak && c == '\n' then ['\n'] else [])
      else if afterBreak then spaces indentation else []
    let here := if c == '\'' then ['\'', '\''] else [c]
    lead ++ here ++ singleBody indentation (some c) cs

def singleQuoted (indentation : Nat) (cs : List Char) : List Char :=
  '\'' :: singleBody indentation none cs ++ ['\'']

/-- Characters with an escape of one letter. -/
def shortEscapes : List (Char × Char) :=
  [('\x00', '0'), ('\x07', 'a'), ('\x08', 'b'), ('\t', 't'), ('\n', 'n'), ('\x0b', 'v'),
    ('\x0c', 'f'), ('\r', 'r'), ('\x1b', 'e'), ('"', '"'), ('\\', '\\'), ('\u0085', 'N'),
    ('\u00a0', '_'), ('\u2028', 'L'), ('\u2029', 'P')]

/-- Whether a character stands for itself between double quotes. -/
def isDoubleGlyph (c : Char) : Bool :=
  let n := c.toNat
  !(c == '"' || c == '\\' || isBreak c || n == 0xFEFF)
    && (0x20 ≤ n && n ≤ 0x7E || 0xA0 ≤ n && n ≤ 0xFFFD)

def doubleChar (c : Char) : List Char :=
  if isDoubleGlyph c then [c]
  else match shortEscapes.find? (·.1 == c) with
    | some e => ['\\', e.2]
    | none =>
      if c.toNat ≤ 0xFF then '\\' :: 'x' :: upperHex 2 c.toNat
      else if c.toNat ≤ 0xFFFF then '\\' :: 'u' :: upperHex 4 c.toNat
      else '\\' :: 'U' :: upperHex 8 c.toNat

def doubleQuoted (cs : List Char) : List Char := '"' :: cs.flatMap doubleChar ++ ['"']

def Style.write (indentation : Nat) (cs : List Char) : Style → List Char
  | .plain => cs
  | .single => singleQuoted indentation cs
  | .double => doubleQuoted cs

end BuildPipeline.Yaml
