import BuildPipeline.Text.Utf8
import BuildPipeline.Yaml.Token
import BuildPipeline.Yaml.Token.Scalar

/-!
From text to tokens. Whether a scalar is a key shows only at the colon behind it, so a token waits
while it may still become one; `Tokens` holds what can be handed out before the text turns out
to be wrong. A lexer keeps the open indentations and one possible key for each depth of brackets.
-/
namespace BuildPipeline.Yaml
open BuildPipeline.Text

/-- A token that may be the first of a key: its number, where it begins, and whether it has to be
one because nothing else may stand there. -/
structure PendingKey where
  number : Nat
  required : Bool
  index : Nat
  line : Nat
  column : Nat

structure Lexer where
  cursor : Cursor
  /-- The depth of brackets; a closing bracket too many leaves it below zero. -/
  flow : Int
  indentation : Int
  outer : List Int
  allowKey : Bool
  keys : List (Int × PendingKey)
  tokens : List Token

namespace Lexer

def start (cs : List Char) : Lexer := ⟨.start cs, 0, -1, [], true, [], [.streamStart]⟩

def inFlow (s : Lexer) : Bool := s.flow != 0

def column (s : Lexer) : Int := s.cursor.column

def push (s : Lexer) (t : Token) : Lexer := { s with tokens := s.tokens ++ [t] }

def insertAt (s : Lexer) (i : Nat) (t : Token) : Lexer :=
  { s with tokens := s.tokens.take i ++ t :: s.tokens.drop i }

/-- The number of the first token that cannot be handed out yet. -/
def demand (s : Lexer) : Nat := s.keys.foldl (fun n e => min n e.2.number) s.tokens.length

/-- Takes back that a token of this depth may be a key. -/
def dropKey (s : Lexer) : Except ReadError Lexer :=
  if s.keys.any fun e => e.1 == s.flow && e.2.required then .error .tokens
  else .ok { s with keys := s.keys.filter (·.1 != s.flow) }

/-- A key must be on one line with its colon and at most 1024 characters before it. -/
def isStale (s : Lexer) (k : PendingKey) : Bool :=
  k.line != s.cursor.line || s.cursor.index - k.index > 1024

def dropStale (s : Lexer) : Except ReadError Lexer :=
  if s.keys.any fun e => s.isStale e.2 && e.2.required then .error .tokens
  else .ok { s with keys := s.keys.filter (!s.isStale ·.2) }

/-- The token that comes next may be a key. -/
def saveKey (s : Lexer) : Except ReadError Lexer :=
  if s.allowKey then do
    let required := !s.inFlow && s.indentation == s.column
    let c := s.cursor
    let key : PendingKey := ⟨s.tokens.length, required, c.index, c.line, c.column⟩
    let s ← s.dropKey
    return { s with keys := s.keys ++ [(s.flow, key)] }
  else .ok s

/-- Closes the collections that are set in further than a column. -/
def closeTo (column : Int) : List Int → Lexer → Lexer
  | [], s => s
  | i :: is, s =>
    if s.indentation > column then
      closeTo column is { s.push .blockEnd with indentation := i, outer := is }
    else s

def unwind (s : Lexer) (column : Int) : Lexer := if s.inFlow then s else closeTo column s.outer s

/-- Opens a collection at a column that is set in further than the last one. -/
def opens (s : Lexer) (column : Int) : Bool := s.indentation < column

def openAt (s : Lexer) (column : Int) : Lexer :=
  { s with indentation := column, outer := s.indentation :: s.outer }

def advance (s : Lexer) (n : Nat) : Lexer := { s with cursor := s.cursor.skip n }

/-- Goes on behind a line break, where a key may stand again; stays where there is none. -/
def nextLine (s : Lexer) (go : Lexer → Lexer) (c : Cursor) : Lexer :=
  match c.lineBreak with
  | some (_, c) => go { s with cursor := c, allowKey := s.allowKey || !s.inFlow }
  | none => { s with cursor := c }

/-- Blanks, comments and line breaks up to the next token. -/
def dropGap : Nat → Lexer → Lexer
  | 0, s => s
  | fuel + 1, s => s.nextLine (dropGap fuel) s.cursor.dropSpaces.dropComment

def toNextToken (s : Lexer) : Lexer :=
  let c := s.cursor
  let c := if c.index == 0 && c.front == '\uFEFF' then c.next else c
  dropGap c.fuel { s with cursor := c }

section Properties

def isNameChar (c : Char) : Bool :=
  isDecimalDigit c || 'A' ≤ c && c ≤ 'Z' || 'a' ≤ c && c ≤ 'z' || c == '-' || c == '_'

def isUriChar (c : Char) : Bool :=
  isDecimalDigit c || 'A' ≤ c && c ≤ 'Z' || 'a' ≤ c && c ≤ 'z'
    || "-;/?:@&=+$,_.!~*'()[]%".toList.contains c

def isSpaceOrLineEnd (c : Char) : Bool := c == ' ' || endsLine c

/-- Octets written as a percent sign and two digits each. -/
def percentOctets : Nat → Cursor → Except ReadError (List Nat × Cursor)
  | 0, c => .ok ([], c)
  | fuel + 1, c =>
    if c.front == '%' then
      if isHexDigit (c.peek 1) && isHexDigit (c.peek 2) then do
        let (more, d) ← percentOctets fuel (c.skip 3)
        return (hexValue [c.peek 1, c.peek 2] :: more, d)
      else .error .tokens
    else .ok ([], c)

/-- Characters of a tag, with runs of percent signs read as UTF-8. -/
def uriText : Nat → Cursor → Except ReadError (List Char × Cursor)
  | 0, c => .ok ([], c)
  | fuel + 1, c =>
    if c.front == '%' then do
      let (bs, c) ← percentOctets c.fuel c
      match decodeUtf8 bs with
      | .error _ => throw .tokens
      | .ok cs =>
        let (more, c) ← uriText fuel c
        return (cs ++ more, c)
    else if isUriChar c.front then do
      let (more, d) ← uriText fuel c.next
      return (c.front :: more, d)
    else .ok ([], c)

/-- A tag's text, which must not be missing. -/
def uri (c : Cursor) : Except ReadError (String × Cursor) :=
  if isUriChar c.front then do
    let (cs, c) ← uriText c.fuel c
    return (String.ofList cs, c)
  else .error .tokens

/-- An exclamation mark alone or around a name. -/
def handle (c : Cursor) : Except ReadError (String × Cursor) :=
  if c.front != '!' then .error .tokens
  else if c.peek 1 == ' ' then .ok ("!", c.next)
  else
    let (name, d) := c.next.span isNameChar
    if d.front == '!' then .ok (String.ofList ('!' :: name ++ ['!']), d.next) else .error .tokens

/-- The name behind an alias or anchor mark. -/
def name (c : Cursor) : Except ReadError (String × Cursor) :=
  let (cs, c) := c.next.span isNameChar
  if cs.isEmpty then .error .tokens
  else if separates c.front || "?:,]\x7d%@\x60".toList.contains c.front then
    .ok (String.ofList cs, c)
  else .error .tokens

/-- A tag: verbatim in angle brackets, the mark alone, or a handle and a suffix. -/
def tag (c : Cursor) : Except ReadError (Token × Cursor) := do
  let (t, c) ←
    if c.peek 1 == '<' then do
      let (suffix, c) ← uri (c.skip 2)
      if c.front != '>' then throw .tokens
      pure (Token.tag none suffix, c.next)
    else if separates (c.peek 1) then pure (.tag none "!", c.next)
    else do
      let word := (c.rest.drop 1).takeWhile (!isSpaceOrLineEnd ·)
      let (h, c) ← if word.contains '!' then handle c else pure ("!", c.next)
      let (suffix, c) ← uri c
      pure (.tag (some h) suffix, c)
  if isSpaceOrLineEnd c.front then return (t, c) else throw .tokens

/-- Decimal digits, one at least. -/
def versionNumber (c : Cursor) : Except ReadError (Nat × Cursor) :=
  let (ds, c) := c.span isDecimalDigit
  if ds.isEmpty then .error .tokens else .ok (decimalValue ds, c)

def version (c : Cursor) : Except ReadError (Directive × Cursor) := do
  let (major, c) ← versionNumber c.dropSpaces
  if c.front != '.' then throw .tokens
  let (_, c) ← versionNumber c.next
  if isSpaceOrLineEnd c.front then return (.version major, c) else throw .tokens

def tagExpansion (c : Cursor) : Except ReadError (Directive × Cursor) := do
  let (h, c) ← handle c.dropSpaces
  if c.front != ' ' then throw .tokens
  let (expansion, c) ← uri c.dropSpaces
  if isSpaceOrLineEnd c.front then return (.tag h expansion, c) else throw .tokens

def directive (c : Cursor) : Except ReadError (Directive × Cursor) := do
  let (word, c) := c.next.span isNameChar
  if word.isEmpty || !isSpaceOrLineEnd c.front then throw .tokens
  let (d, c) ←
    if word == "YAML".toList then version c
    else if word == "TAG".toList then tagExpansion c
    else pure (.unknown, c.dropWhile (!endsLine ·))
  return (d, ← ignoredLine c)

end Properties

section Fetch

/-- Marks between documents and directives close every collection. -/
def atMargin (s : Lexer) : Except ReadError Lexer := do
  let s ← (s.unwind (-1)).dropKey
  return { s with allowKey := false }

/-- A token that may be a key, read from the cursor. -/
def fetchKeyed (s : Lexer) (read : Cursor → Except ReadError (Token × Cursor)) :
    Except ReadError Lexer := do
  let s ← s.saveKey
  let (t, c) ← read s.cursor
  return { s.push t with cursor := c, allowKey := false }

def fetchOpening (s : Lexer) (t : Token) : Except ReadError Lexer := do
  let s ← s.saveKey
  return { (s.push t).advance 1 with flow := s.flow + 1, allowKey := true }

def fetchClosing (s : Lexer) (t : Token) : Except ReadError Lexer := do
  let s ← s.dropKey
  return { (s.push t).advance 1 with flow := s.flow - 1, allowKey := false }

def fetchFlowEntry (s : Lexer) : Except ReadError Lexer := do
  let s ← s.dropKey
  return { (s.push .flowEntry).advance 1 with allowKey := true }

/-- A mark that may open a block collection of its own. -/
def openBlock (s : Lexer) (t : Token) : Except ReadError Lexer :=
  if s.inFlow then .ok s
  else if !s.allowKey then .error .tokens
  else .ok (if s.opens s.column then (s.openAt s.column).push t else s)

def fetchBlockEntry (s : Lexer) : Except ReadError Lexer := do
  let s ← (← s.openBlock .blockSequenceStart).dropKey
  return { (s.push .blockEntry).advance 1 with allowKey := true }

def fetchKey (s : Lexer) : Except ReadError Lexer := do
  let s ← (← s.openBlock .blockMappingStart).dropKey
  return { (s.push .key).advance 1 with allowKey := !s.inFlow }

/-- A colon turns the pending token into a key, or stands for a value without one. -/
def fetchValue (s : Lexer) : Except ReadError Lexer := do
  match s.keys.find? (·.1 == s.flow) with
  | some (_, k) =>
    let s := { s with keys := s.keys.filter (·.1 != s.flow), allowKey := false }
    let s := s.insertAt k.number .key
    let s := if !s.inFlow && s.opens k.column then
      (s.openAt k.column).insertAt k.number .blockMappingStart else s
    return (s.push .value).advance 1
  | none =>
    let s ← s.openBlock .blockMappingStart
    let s ← { s with allowKey := !s.inFlow }.dropKey
    return (s.push .value).advance 1

def fetchBlockScalar (s : Lexer) (folded : Bool) : Except ReadError Lexer := do
  let s ← { s with allowKey := true }.dropKey
  let (text, c) ← blockScalar folded s.indentation s.cursor
  return { s.push (.scalar text false) with cursor := c }

def fetchPlain (s : Lexer) : Except ReadError Lexer := do
  let s ← s.saveKey
  let (text, broke, c) := plainScalar s.inFlow (s.indentation + 1) s.cursor
  return { s.push (.scalar text true) with cursor := c, allowKey := broke }

def fetchDocumentMark (s : Lexer) (t : Token) : Except ReadError Lexer := do
  let s ← s.atMargin
  return (s.push t).advance 3

def fetchDirective (s : Lexer) : Except ReadError Lexer := do
  let s ← s.atMargin
  let (d, c) ← directive s.cursor
  return { s.push (.directive d) with cursor := c }

def fetchEnd (s : Lexer) : Except ReadError Lexer := do
  let s ← s.atMargin
  return { s.push .streamEnd with keys := [] }

/-- Whether a plain scalar may begin with what is at the front. -/
def startsPlain (s : Lexer) : Bool :=
  let ch := s.cursor.front
  !(separates ch || "-?:,[]\x7b\x7d#&*!|>'\"%@\x60".toList.contains ch)
    || !separates (s.cursor.peek 1) && (ch == '-' || !s.inFlow && (ch == '?' || ch == ':'))

def isEntryMark (s : Lexer) : Bool := separates (s.cursor.peek 1)

def isKeyMark (s : Lexer) : Bool := s.inFlow || separates (s.cursor.peek 1)

/-- The token at the cursor, with those that it brings along. -/
def fetchHere (s : Lexer) : Except ReadError Lexer :=
  let c := s.cursor
  let ch := c.front
  let margin := c.column == 0 && separates (c.peek 3)
  if c.atEnd then s.fetchEnd
  else if ch == '%' && c.column == 0 then s.fetchDirective
  else if margin && c.startsWith "---" then s.fetchDocumentMark .documentStart
  else if margin && c.startsWith "..." then s.fetchDocumentMark .documentEnd
  else if ch == '[' then s.fetchOpening .flowSequenceStart
  else if ch == '\x7b' then s.fetchOpening .flowMappingStart
  else if ch == ']' then s.fetchClosing .flowSequenceEnd
  else if ch == '\x7d' then s.fetchClosing .flowMappingEnd
  else if ch == ',' then s.fetchFlowEntry
  else if ch == '-' && s.isEntryMark then s.fetchBlockEntry
  else if ch == '?' && s.isKeyMark then s.fetchKey
  else if ch == ':' && s.isKeyMark then s.fetchValue
  else if ch == '*' then s.fetchKeyed fun c => return ((← name c).map Token.alias id)
  else if ch == '&' then s.fetchKeyed fun c => return ((← name c).map Token.anchor id)
  else if ch == '!' then s.fetchKeyed tag
  else if ch == '|' && !s.inFlow then s.fetchBlockScalar false
  else if ch == '>' && !s.inFlow then s.fetchBlockScalar true
  else if ch == '\'' then
    s.fetchKeyed fun c => return ((← quotedScalar false c).map (Token.scalar · false) id)
  else if ch == '"' then
    s.fetchKeyed fun c => return ((← quotedScalar true c).map (Token.scalar · false) id)
  else if s.startsPlain then s.fetchPlain
  else throw .tokens

/-- One more token behind the gap in front of it. -/
def fetch (s : Lexer) : Except ReadError Lexer := do
  let s ← s.toNextToken.dropStale
  (s.unwind s.column).fetchHere

/-- Whether the last token ends the text. -/
def hasEnded (s : Lexer) : Bool := s.tokens.getLast? == some .streamEnd

/-- One more fetch, and a look for keys that can no longer be keys, unless the text has ended. -/
def fetchNext (s : Lexer) : Except ReadError Lexer := do
  let t ← s.fetch
  if t.hasEnded then return t else t.dropStale

end Fetch

end Lexer

/-- Tokens in order, and what is wrong with the text behind the last one. -/
structure Tokens where
  list : List Token
  failure : Option ReadError

namespace Tokens

/-- What a lexer hands out when a fetch fails, and otherwise what comes of the fetch. -/
def handOut (s : Lexer) (go : Lexer → Tokens) : Except ReadError Lexer → Tokens
  | .error e => ⟨s.tokens.take s.demand, some e⟩
  | .ok t => if t.hasEnded then ⟨t.tokens, none⟩ else go t

/-- Fetches until the end of the text; `fuel` bounds the number of fetches. -/
def fetchAll : Nat → Lexer → Tokens
  | 0, s => ⟨s.tokens, some .tokens⟩
  | fuel + 1, s => handOut s (fetchAll fuel) s.fetchNext

def ofText (cs : List Char) : Tokens := fetchAll (cs.length + 2) (.start cs)

end Tokens

end BuildPipeline.Yaml
