import BuildPipeline.Yaml.Style

/-!
A place in a YAML text: what is left of it, and how many characters, lines and columns lie before.
Past the end every character is the null character, which no text holds.
-/
namespace BuildPipeline.Yaml

structure Cursor where
  rest : List Char
  index : Nat
  line : Nat
  column : Nat

/-- Whether a character ends a line: a break or the end of the text. -/
def endsLine (c : Char) : Bool := c == '\x00' || c == '\r' || isBreak c

namespace Cursor

def start (cs : List Char) : Cursor := ⟨cs, 0, 0, 0⟩

/-- The character `k` places ahead. -/
def peek (c : Cursor) (k : Nat) : Char := c.rest.getD k '\x00'

def front (c : Cursor) : Char := c.peek 0

def atEnd (c : Cursor) : Bool := c.front == '\x00'

/-- One character further. A byte order mark has no width. -/
def next (c : Cursor) : Cursor :=
  match c.rest with
  | [] => c
  | ch :: r =>
    if isBreak ch || ch == '\r' && r.head? != some '\n' then ⟨r, c.index + 1, c.line + 1, 0⟩
    else ⟨r, c.index + 1, c.line, if ch == '\uFEFF' then c.column else c.column + 1⟩

def skip : Nat → Cursor → Cursor
  | 0, c => c
  | n + 1, c => skip n c.next

/-- The characters at the front that belong to a class, and the place behind them. -/
def span (p : Char → Bool) (c : Cursor) : List Char × Cursor :=
  let cs := c.rest.takeWhile p
  (cs, c.skip cs.length)

def dropWhile (p : Char → Bool) (c : Cursor) : Cursor := (c.span p).2

def startsWith (s : String) (c : Cursor) : Bool := s.toList.isPrefixOf c.rest

/-- A line break at the front. All breaks but the two separators count as line feeds. -/
def lineBreak (c : Cursor) : Option (Char × Cursor) :=
  let ch := c.front
  if ch == '\r' || ch == '\n' || ch == '\u0085' then
    some ('\n', if c.startsWith "\r\n" then c.skip 2 else c.next)
  else if ch == '\u2028' || ch == '\u2029' then some (ch, c.next)
  else none

/-- Behind a line break, if there is one. -/
def dropBreak (c : Cursor) : Cursor := (c.lineBreak.map (·.2)).getD c

def dropSpaces (c : Cursor) : Cursor := c.dropWhile (· == ' ')

/-- Behind a comment, if there is one. -/
def dropComment (c : Cursor) : Cursor :=
  if c.front == '#' then c.dropWhile (!endsLine ·) else c

/-- Three hyphens or points that stand alone. -/
def atDocumentMark (c : Cursor) : Bool :=
  (c.startsWith "---" || c.startsWith "...") && separates (c.peek 3)

/-- An upper bound on the steps that can be taken. -/
def fuel (c : Cursor) : Nat := c.rest.length + 1

end Cursor

end BuildPipeline.Yaml
