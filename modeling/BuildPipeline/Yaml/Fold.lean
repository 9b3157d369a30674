import BuildPipeline.Yaml.Writer

/-!
Writing with a bound on the width of a line. A scalar that goes beyond it is folded: outside double
quotes at a single space, which the line break then stands for, and in double quotes at any space
and beside every escape, behind a backslash. Without a bound, and in a key on one line with its
value, nothing is folded.
-/
namespace BuildPipeline.Yaml

/-- Whether a column is beyond the width of a line; `none` is no bound. -/
def exceeds (width : Option Nat) (column : Nat) : Bool := width.any (· < column)

/-- The column behind a text. -/
def advance (column : Nat) (cs : List Char) : Nat :=
  cs.foldl (fun n c => if isBreak c then 0 else n + 1) column

/-- A space with none before it and none behind it. -/
def isLoneSpace (before : Option Char) (c : Char) (cs : List Char) : Bool :=
  c == ' ' && before != some ' ' && cs.head? != some ' '

def foldPlain (width : Option Nat) (indentation : Nat) :
    Option Char → Nat → List Char → List Char
  | _, _, [] => []
  | p, column, c :: cs =>
    if isLoneSpace p c cs && exceeds width column then
      newline indentation ++ foldPlain width indentation (some c) indentation cs
    else c :: foldPlain width indentation (some c) (column + 1) cs

/-- Single quotes. The first and the last character are never a fold. -/
def foldSingle (width : Option Nat) (indentation : Nat) :
    Option Char → Nat → List Char → List Char
  | some p, _, [] => if isBreak p then spaces indentation else []
  | none, _, [] => []
  | p, column, c :: cs =>
    if p.isSome && !cs.isEmpty && isLoneSpace p c cs && exceeds width column then
      newline indentation ++ foldSingle width indentation (some c) indentation cs
    else
      let afterBreak := (p.map isBreak).getD false
      let lead :=
        if isBreak c then (if !afterBreak && c == '\n' then ['\n'] else [])
        else if afterBreak then spaces indentation else []
      let here := if c == '\'' then ['\'', '\''] else [c]
      lead ++ here ++ foldSingle width indentation (some c) (advance column (lead ++ here)) cs

/-- A fold in double quotes. A backslash keeps a space that the next line begins with. -/
def doubleFold (indentation : Nat) (next : Option Char) : List Char :=
  '\\' :: newline indentation ++ if next == some ' ' then ['\\'] else []

/-- Double quotes. What is known of the character before is whether it was an escape. A character
that shows as it is can have a fold in front of it, and an escape can have one behind it. -/
def foldDouble (width : Option Nat) (indentation : Nat) :
    Option Bool → Nat → List Char → List Char
  | _, _, [] => []
  | escaped, column, c :: cs =>
    let inside := escaped.isSome && !cs.isEmpty
    let here := doubleChar c
    if isDoubleGlyph c then
      let lead :=
        if inside && (c == ' ' || escaped == some true) && exceeds width column then
          doubleFold indentation (some c)
        else []
      lead ++ here
        ++ foldDouble width indentation (some false) (advance column (lead ++ here)) cs
    else
      let trail :=
        if inside && exceeds width (column + here.length - 1) then
          doubleFold indentation cs.head?
        else []
      here ++ trail
        ++ foldDouble width indentation (some true) (advance column (here ++ trail)) cs

/-- A text in a style, from a column on. -/
def Style.fold (width : Option Nat) (indentation column : Nat) (cs : List Char) :
    Style → List Char
  | .plain => foldPlain width indentation none column cs
  | .single => '\'' :: foldSingle width indentation none (column + 1) cs ++ ['\'']
  | .double => '"' :: foldDouble width indentation none (column + 1) cs ++ ['"']

/-- A part of a text: marks and white space, or a scalar with its indentation and with whether it is
a key on one line with its value. -/
inductive Piece
  | layout (cs : List Char)
  | scalar (indentation : Nat) (simpleKey : Bool) (s : Scalar)
  deriving DecidableEq

namespace Piece

def scalar? : Piece → Option Scalar
  | .layout _ => none
  | .scalar _ _ s => some s

/-- A part from a column on. -/
def fold (width : Option Nat) (column : Nat) : Piece → List Char
  | .layout cs => cs
  | .scalar indentation simpleKey s =>
    let (tag, text) := scalarParts s
    let cs := text.toList
    (styleOf tag simpleKey cs).fold (if simpleKey then none else width) indentation column cs

end Piece

/-- The text of parts one behind the other, from a column on. -/
def foldPieces (width : Option Nat) : Nat → List Piece → List Char
  | _, [] => []
  | column, p :: ps =>
    let cs := p.fold width column
    cs ++ foldPieces width (advance column cs) ps

section Pieces

def joinPieces (indentation : Nat) : List (List Piece) → List Piece
  | [] => []
  | [l] => l
  | l :: ls => l ++ .layout (newline indentation) :: joinPieces indentation ls

def listPieces (indentation : Nat) : Place → (Nat → List (List Piece)) → List Piece
  | .mark, ls => .layout [' '] :: joinPieces (indentation + 2) (ls (indentation + 2))
  | .key, ls => .layout (newline indentation) :: joinPieces indentation (ls indentation)

def dictPieces (indentation : Nat) : Place → (Nat → List (List Piece)) → List Piece
  | .mark, ls => .layout [' '] :: joinPieces (indentation + 2) (ls (indentation + 2))
  | .key, ls =>
    .layout (newline (indentation + 2)) :: joinPieces (indentation + 2) (ls (indentation + 2))

/-- A key and the mark behind it. -/
def keyPieces (indentation : Nat) (k : Scalar) : List Piece :=
  if isSimpleKey k then [.scalar indentation true k, .layout [':']]
  else [.layout ['?', ' '], .scalar (indentation + 2) false k,
    .layout (newline indentation ++ [':'])]

mutual

/-- The parts of a value behind a mark or a key that stands at an indentation. -/
def nodePieces (place : Place) (indentation : Nat) : Value → List Piece
  | .scalar s => [.layout [' '], .scalar (indentation + 2) false s]
  | .list [] => [.layout " []".toList]
  | .list (v :: vs) => listPieces indentation place fun n =>
    (.layout ['-'] :: nodePieces .mark n v) :: itemPieces n vs
  | .pair k v => listPieces indentation place fun n =>
    [.layout ['-'] :: nodePieces .mark n k, .layout ['-'] :: nodePieces .mark n v]
  | .dict [] => [.layout " \x7b\x7d".toList]
  | .dict (e :: es) => dictPieces indentation place fun n => entryPieces n (e :: es)
  | .set _ | .loop _ => [.layout " null".toList]

def itemPieces (indentation : Nat) : List Value → List (List Piece)
  | [] => []
  | v :: vs => (.layout ['-'] :: nodePieces .mark indentation v) :: itemPieces indentation vs

def entryPieces (indentation : Nat) : List (Scalar × Value) → List (List Piece)
  | [] => []
  | (k, v) :: es =>
    (keyPieces indentation k ++ nodePieces (keyPlace k) indentation v)
      :: entryPieces indentation es

end

/-- The parts of the text of a document. -/
def pieces (d : Dict) : List Piece :=
  if d.isEmpty then [.layout "\x7b\x7d\n".toList]
  else joinPieces 0 (entryPieces 0 d) ++ [.layout ['\n']]

end Pieces

/-- A document on lines of some width. -/
def writeWithin (width : Option Nat) (d : Dict) : String :=
  String.ofList (foldPieces width 0 (pieces d))

end BuildPipeline.Yaml

namespace BuildPipeline

mutual

/-- The keys and scalars of a document in their order. A set and what comes back inside itself have
no text of their own. -/
def Value.scalars : Value → List Scalar
  | .scalar s => [s]
  | .list vs => Value.scalarsOfAll vs
  | .pair k v => k.scalars ++ v.scalars
  | .dict es => Value.scalarsOfEntries es
  | .set _ | .loop _ => []

def Value.scalarsOfAll : List Value → List Scalar
  | [] => []
  | v :: vs => v.scalars ++ Value.scalarsOfAll vs

def Value.scalarsOfEntries : List (Scalar × Value) → List Scalar
  | [] => []
  | (k, v) :: es => k :: v.scalars ++ Value.scalarsOfEntries es

end

end BuildPipeline
