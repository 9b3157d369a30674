import BuildPipeline.Text.Hex
import BuildPipeline.Yaml.Cursor
import BuildPipeline.Yaml.Error

/-!
Scalars in a text: quoted, plain and block scalars, with their lines folded or kept. Each function
takes the place where a part begins and gives the characters of that part and the place behind it.
-/
namespace BuildPipeline.Yaml
open BuildPipeline.Text

section Quoted

/-- Line breaks with the blanks around them. No document may begin or end within quotes. -/
def quotedBreaks : Nat → Cursor → Except ReadError (List Char × Cursor)
  | 0, c => .ok ([], c)
  | fuel + 1, c =>
    if c.atDocumentMark then .error .tokens
    else
      let c := c.dropWhile isSpaceOrTab
      match c.lineBreak with
      | none => .ok ([], c)
      | some (b, c) => do
        let (bs, c) ← quotedBreaks fuel c
        return (b :: bs, c)

/-- One line break alone is a space; of several the first is dropped unless it is a separator. -/
def foldBreaks (b : Char) (bs : List Char) : List Char :=
  if b ≠ '\n' then b :: bs else if bs.isEmpty then [' '] else bs

def quotedSpaces (c : Cursor) : Except ReadError (List Char × Cursor) :=
  let (blanks, c) := c.span isSpaceOrTab
  if c.atEnd then .error .tokens
  else match c.lineBreak with
    | none => .ok (blanks, c)
    | some (b, c) => do
      let (bs, c) ← quotedBreaks c.fuel c
      return (foldBreaks b bs, c)

def escapes : List (Char × Char) :=
  [('0', '\x00'), ('a', '\x07'), ('b', '\x08'), ('t', '\t'), ('\t', '\t'), ('n', '\n'),
    ('v', '\x0b'), ('f', '\x0c'), ('r', '\r'), ('e', '\x1b'), (' ', ' '), ('"', '"'),
    ('\\', '\\'), ('/', '/'), ('N', '\u0085'), ('_', '\u00a0'), ('L', '\u2028'), ('P', '\u2029')]

/-- How many hexadecimal digits an escape takes. -/
def escapeWidth? : Char → Option Nat
  | 'x' => some 2
  | 'u' => some 4
  | 'U' => some 8
  | _ => none

/-- A character by its number. Halves of surrogate pairs are replaced. -/
def charOfCode (n : Nat) : Except ReadError Char :=
  if 0x7FFFFFFF < n then .error (.literal .characterTooLarge)
  else if 0x10FFFF < n then .error (.literal .character)
  else if 0xD800 ≤ n ∧ n ≤ 0xDFFF then .ok '\uFFFD'
  else .ok (Char.ofNat n)

/-- What a backslash stands for, with the place behind the backslash given. -/
def escape (c : Cursor) : Except ReadError (List Char × Cursor) :=
  match escapes.find? (·.1 == c.front), escapeWidth? c.front with
  | some e, _ => .ok ([e.2], c.next)
  | none, some k => do
    let c := c.next
    let ds := c.rest.take k
    if ds.length = k ∧ ds.all isHexDigit then
      return ([← charOfCode (hexValue ds)], c.skip k)
    else throw .tokens
  | none, none =>
    match c.lineBreak with
    | some (_, c) => quotedBreaks c.fuel c
    | none => .error .tokens

def isQuotedGlyph (c : Char) : Bool := !(c == '\'' || c == '"' || c == '\\' || separates c)

/-- Text within quotes up to a blank, a break or the closing quote. -/
def quotedText (double : Bool) : Nat → Cursor → Except ReadError (List Char × Cursor)
  | 0, c => .ok ([], c)
  | fuel + 1, c =>
    let (run, c) := c.span isQuotedGlyph
    let ch := c.front
    let resume (here : List Char) (c : Cursor) : Except ReadError (List Char × Cursor) := do
      let (more, c) ← quotedText double fuel c
      return (run ++ here ++ more, c)
    if !double && ch == '\'' && c.peek 1 == '\'' then resume ['\''] (c.skip 2)
    else if double && ch == '\'' || !double && (ch == '"' || ch == '\\') then resume [ch] c.next
    else if double && ch == '\\' then do
      let (here, c) ← escape c.next
      resume here c
    else .ok (run, c)

/-- Text and blanks in turn up to the closing quote. -/
def quotedRest (double : Bool) : Nat → Cursor → Except ReadError (List Char × Cursor)
  | 0, _ => .error .tokens
  | fuel + 1, c => do
    let (text, c) ← quotedText double c.fuel c
    if c.front == (if double then '"' else '\'') then return (text, c.next)
    else
      let (blanks, c) ← quotedSpaces c
      let (more, c) ← quotedRest double fuel c
      return (text ++ blanks ++ more, c)

/-- A quoted scalar from its opening quote on. -/
def quotedScalar (double : Bool) (c : Cursor) : Except ReadError (List Char × Cursor) :=
  quotedRest double (c.fuel + 1) c.next

end Quoted

section Plain

def isFlowMark (c : Char) : Bool := ",[]\x7b\x7d".toList.contains c

/-- Where a plain scalar stops: at a separator, at a colon that ends a key and, within brackets, at
their marks. -/
def plainRun (flow : Bool) : List Char → List Char
  | [] => []
  | ch :: r =>
    let after := r.headD '\x00'
    if separates ch || ch == ':' && (separates after || flow && isFlowMark after)
      || flow && (isFlowMark ch || ch == '?') then []
    else ch :: plainRun flow r

/-- What lies between two parts of a plain scalar. -/
structure Gap where
  text : List Char
  /-- Whether a line ended. -/
  broke : Bool
  cursor : Cursor

/-- Further line breaks; `none` in front of a document mark. -/
def plainBreaks : Nat → Cursor → Option (List Char) × Cursor
  | 0, c => (some [], c)
  | fuel + 1, c =>
    if c.front == ' ' then plainBreaks fuel c.next
    else match c.lineBreak with
      | none => (some [], c)
      | some (b, c) =>
        if c.atDocumentMark then (none, c)
        else
          let (bs, c) := plainBreaks fuel c
          (bs.map (b :: ·), c)

def plainGap (c : Cursor) : Gap :=
  let (blanks, c) := c.span (· == ' ')
  match c.lineBreak with
  | none => ⟨blanks, false, c⟩
  | some (b, c) =>
    if c.atDocumentMark then ⟨[], true, c⟩
    else match plainBreaks c.fuel c with
      | (none, c) => ⟨[], true, c⟩
      | (some bs, c) => ⟨foldBreaks b bs, true, c⟩

/-- The parts of a plain scalar, with what lies before the next one. The flag tells whether a line
ended behind the last part. -/
def plainRest (flow : Bool) (indentation : Int) :
    Nat → List Char → Bool → Cursor → List Char × Bool × Cursor
  | 0, _, broke, c => ([], broke, c)
  | fuel + 1, gap, broke, c =>
    let run := plainRun flow c.rest
    if c.front == '#' || run.isEmpty then ([], broke, c)
    else
      let g := plainGap (c.skip run.length)
      if g.text.isEmpty || g.cursor.front == '#' || !flow && g.cursor.column < indentation then
        (gap ++ run, g.broke, g.cursor)
      else
        let (more, broke, c) := plainRest flow indentation fuel g.text g.broke g.cursor
        (gap ++ run ++ more, broke, c)

def plainScalar (flow : Bool) (indentation : Int) (c : Cursor) : List Char × Bool × Cursor :=
  plainRest flow indentation c.fuel [] false c

end Plain

section Block

/-- What happens to the breaks behind the last line of a block scalar. -/
inductive Chomping
  | strip
  | clip
  | keep

def chomping? : Char → Option Chomping
  | '+' => some .keep
  | '-' => some .strip
  | _ => none

/-- An indentation indicator, which must not be zero. -/
def increment (c : Cursor) : Except ReadError (Option Nat × Cursor) :=
  if isDecimalDigit c.front then
    if c.front == '0' then .error .tokens
    else .ok (some (c.front.toNat - '0'.toNat), c.next)
  else .ok (none, c)

/-- Chomping and indentation indicators in either order. -/
def blockHeader (c : Cursor) : Except ReadError (Chomping × Option Nat × Cursor) := do
  let (chomp, inc, c) ← match chomping? c.front with
    | some chomp => do
      let (inc, c) ← increment c.next
      pure (chomp, inc, c)
    | none => do
      let (inc, c) ← increment c
      match inc, chomping? c.front with
      | some n, some chomp => pure (chomp, some n, c.next)
      | inc, _ => pure (.clip, inc, c)
  if c.front == ' ' || endsLine c.front then return (chomp, inc, c) else throw .tokens

/-- The rest of a line, which may hold a comment and nothing else. -/
def ignoredLine (c : Cursor) : Except ReadError Cursor :=
  let c := c.dropSpaces.dropComment
  if endsLine c.front then .ok c.dropBreak else .error .tokens

/-- Blank lines at the front and the greatest indentation among them. -/
def leadingBreaks : Nat → Nat → Cursor → List Char × Nat × Cursor
  | 0, widest, c => ([], widest, c)
  | fuel + 1, widest, c =>
    if c.front == ' ' then leadingBreaks fuel (max widest c.next.column) c.next
    else match c.lineBreak with
      | none => ([], widest, c)
      | some (b, c) =>
        let (bs, widest, c) := leadingBreaks fuel widest c
        (b :: bs, widest, c)

/-- Spaces up to an indentation. -/
def dropIndentation (indentation : Nat) : Nat → Cursor → Cursor
  | 0, c => c
  | fuel + 1, c =>
    if c.column < indentation && c.front == ' ' then dropIndentation indentation fuel c.next else c

/-- Blank lines and the indentation of the next line. -/
def blockBreaks (indentation : Nat) : Nat → Cursor → List Char × Cursor
  | 0, c => ([], c)
  | fuel + 1, c =>
    let c := dropIndentation indentation c.fuel c
    match c.lineBreak with
    | none => ([], c)
    | some (b, c) =>
      let (bs, c) := blockBreaks indentation fuel c
      (b :: bs, c)

/-- The lines of a block scalar, the break behind the last one and the breaks that follow. -/
structure BlockLines where
  text : List Char
  ending : List Char
  breaks : List Char
  cursor : Cursor

/-- A folded line goes on after a space unless it or the next one begins with a blank. -/
def blockLines (folded : Bool) (indentation : Nat) : Nat → List Char → Cursor → BlockLines
  | 0, breaks, c => ⟨[], [], breaks, c⟩
  | fuel + 1, breaks, c =>
    if c.column = indentation ∧ !c.atEnd then
      let flush := !isSpaceOrTab c.front
      let (run, c) := c.span (!endsLine ·)
      let (ending, c) := match c.lineBreak with
        | some (b, c) => ([b], c)
        | none => ([], c)
      let (more, c) := blockBreaks indentation c.fuel c
      if c.column = indentation ∧ !c.atEnd then
        let joint :=
          if folded && ending == ['\n'] && flush && !isSpaceOrTab c.front then
            (if more.isEmpty then [' '] else [])
          else ending
        let r := blockLines folded indentation fuel more c
        { r with text := breaks ++ run ++ joint ++ r.text }
      else ⟨breaks ++ run, ending, more, c⟩
    else ⟨[], [], breaks, c⟩

/-- A block scalar from its mark on, inside of something that stands at `parent`. -/
def blockScalar (folded : Bool) (parent : Int) (c : Cursor) :
    Except ReadError (List Char × Cursor) := do
  let (chomp, inc, c) ← blockHeader c.next
  let c ← ignoredLine c
  let least := max 1 (parent + 1).toNat
  let (breaks, indentation, c) := match inc with
    | some n =>
      let indentation := least + n - 1
      let (bs, c) := blockBreaks indentation c.fuel c
      (bs, indentation, c)
    | none =>
      let (bs, widest, c) := leadingBreaks c.fuel 0 c
      (bs, max least widest, c)
  let lines := blockLines folded indentation c.fuel breaks c
  let tail := match chomp with
    | .strip => []
    | .clip => lines.ending
    | .keep => lines.ending ++ lines.breaks
  return (lines.text ++ tail, lines.cursor)

end Block

end BuildPipeline.Yaml
