import BuildPipeline.Table
import BuildPipeline.Yaml.Error
import BuildPipeline.Yaml.Node
import BuildPipeline.Yaml.Token.Lexer

/-!
From tokens to the node of the one document that a text may hold. Tokens are looked at one at a
time, so that of a wrong structure and wrong text behind it the structure is reported.
-/
namespace BuildPipeline.Yaml

/-- What is left of the tokens, the handles of the document's tags and the nodes with anchors. A
collection that is still open has a `loop` under its anchor. -/
structure Parsing where
  tokens : List Token
  failure : ReadError
  handles : Table String String
  anchors : Table String Node

abbrev Parse (α : Type) := StateT Parsing (Except ReadError) α

namespace Parse

def front : Parse Token := do
  let s ← get
  match s.tokens with
  | t :: _ => return t
  | [] => throw s.failure

def drop : Parse Unit := modify fun s => { s with tokens := s.tokens.drop 1 }

/-- Whether the next token is one of a few; if so it stays where it is. -/
def sees (ts : List Token) : Parse Bool := return ts.contains (← front)

/-- Drops the next token if it is the one that is asked for. -/
def accept (t : Token) : Parse Bool := do
  if (← front) == t then drop; return true else return false

def expect (t : Token) : Parse Unit := do
  unless ← accept t do throw .structural

def defaultHandles : Table String String := [("!", "!"), ("!!", Tag.vocabulary)]

section Nodes

/-- An anchor and a tag in either order. -/
structure Properties where
  anchor : Option String
  tag : Option String

def takeAnchor : Parse (Option String) := do
  match ← front with
  | .anchor name => drop; return some name
  | _ => return none

def takeTag : Parse (Option (Option String × String)) := do
  match ← front with
  | .tag handle suffix => drop; return some (handle, suffix)
  | _ => return none

/-- A tag in full. -/
def expand : Option (Option String × String) → Parse (Option String)
  | none => return none
  | some (none, suffix) => return some suffix
  | some (some handle, suffix) => do
    match Table.get? (← get).handles handle with
    | some expansion => return some (expansion ++ suffix)
    | none => throw .structural

def properties : Parse Properties := do
  match ← takeAnchor with
  | some a => return ⟨some a, ← expand (← takeTag)⟩
  | none => do
    match ← takeTag with
    | none => return ⟨none, none⟩
    | some t => do
      let a ← takeAnchor
      return ⟨a, ← expand (some t)⟩

/-- A tag that says something; the mark alone does not. -/
def Properties.explicit (p : Properties) : Option Tag :=
  match p.tag with
  | none => none
  | some "!" => none
  | some name => some (.ofName name)

/-- No two nodes share an anchor. -/
def checkAnchor (p : Properties) : Parse Unit := do
  match p.anchor with
  | some a => if Table.contains (← get).anchors a then throw .anchors
  | none => return

def setAnchor (p : Properties) (n : Node) : Parse Unit := do
  match p.anchor with
  | some a => modify fun s => { s with anchors := Table.insert s.anchors a n }
  | none => return

/-- A collection that is under its anchor while it is read, and after. -/
def collection (p : Properties) (t : Tag) (isMap : Bool) (content : Tag → Parse Node) :
    Parse Node := do
  let t := p.explicit.getD t
  checkAnchor p
  setAnchor p (.loop t isMap)
  let n ← content t
  setAnchor p n
  return n

/-- The tag of a scalar: its own, or the one that its looks give it unless it is in quotes. -/
def scalarTag (p : Properties) (text : List Char) (plain : Bool) : Tag :=
  match p.explicit with
  | some t => t
  | none => if plain && p.tag.isNone || p.tag == some "!" then .ofPlain text else .str

def scalarNode (p : Properties) (text : List Char) (plain : Bool) : Parse Node := do
  checkAnchor p
  let n := Node.scalar (scalarTag p text plain) text
  setAnchor p n
  return n

/-- A node that has properties and nothing else. -/
def bareNode (p : Properties) : Parse Node := do
  checkAnchor p
  let n := match p.explicit with
    | some t => Node.scalar t []
    | none => .absent
  setAnchor p n
  return n

def aliasNode (name : String) : Parse Node := do
  drop
  match Table.get? (← get).anchors name with
  | some n => return n
  | none => throw .anchors

mutual

/-- A node. Block collections are read only where `block` allows them, and a list at the level of
its key only where `indentless` does. -/
def node (block indentless : Bool) : Nat → Parse Node
  | 0 => throw .structural
  | fuel + 1 => do
    match ← front with
    | .alias name => aliasNode name
    | _ => do
      let p ← properties
      match ← front with
      | .blockEntry =>
        if indentless then
          collection p .seq false fun t => return .seq t (← indentlessItems fuel)
        else bareOrError p
      | .scalar text plain => drop; scalarNode p text plain
      | .flowSequenceStart =>
        collection p .seq false fun t => do drop; return .seq t (← flowItems true fuel)
      | .flowMappingStart =>
        collection p .map true fun t => do drop; return .map t (← flowEntries true fuel)
      | .blockSequenceStart =>
        if block then collection p .seq false fun t => do drop; return .seq t (← blockItems fuel)
        else bareOrError p
      | .blockMappingStart =>
        if block then collection p .map true fun t => do drop; return .map t (← blockEntries fuel)
        else bareOrError p
      | _ => bareOrError p
where
  bareOrError (p : Properties) : Parse Node :=
    if p.anchor.isSome || p.tag.isSome then bareNode p else throw .structural

/-- A node, or an absent one in front of some tokens. -/
def nodeUnless (stops : List Token) (block indentless : Bool) : Nat → Parse Node
  | 0 => throw .structural
  | fuel + 1 => do
    if ← sees stops then return .absent else node block indentless fuel

def blockItems : Nat → Parse (List Node)
  | 0 => throw .structural
  | fuel + 1 => do
    if ← accept .blockEntry then
      let n ← nodeUnless [.blockEntry, .blockEnd] true false fuel
      return n :: (← blockItems fuel)
    else
      expect .blockEnd
      return []

def indentlessItems : Nat → Parse (List Node)
  | 0 => throw .structural
  | fuel + 1 => do
    if ← accept .blockEntry then
      let n ← nodeUnless [.blockEntry, .key, .value, .blockEnd] true false fuel
      return n :: (← indentlessItems fuel)
    else return []

def blockEntries : Nat → Parse (List (Node × Node))
  | 0 => throw .structural
  | fuel + 1 => do
    if ← accept .key then
      let k ← nodeUnless [.key, .value, .blockEnd] true true fuel
      let v ← blockValue fuel
      return (k, v) :: (← blockEntries fuel)
    else
      expect .blockEnd
      return []

def blockValue : Nat → Parse Node
  | 0 => throw .structural
  | fuel + 1 => do
    if ← accept .value then nodeUnless [.key, .value, .blockEnd] true true fuel
    else return .absent

/-- The elements of a list in brackets. A pair alone is a mapping of one entry. -/
def flowItems (first : Bool) : Nat → Parse (List Node)
  | 0 => throw .structural
  | fuel + 1 => do
    if ← accept .flowSequenceEnd then return []
    else
      unless first do expect .flowEntry
      if ← accept .flowSequenceEnd then return []
      else
        let n ← if ← accept .key then flowPair fuel else node false false fuel
        return n :: (← flowItems false fuel)

def flowPair : Nat → Parse Node
  | 0 => throw .structural
  | fuel + 1 => do
    let k ← nodeUnless [.value, .flowEntry, .flowSequenceEnd] false false fuel
    let v ← flowValue [.flowEntry, .flowSequenceEnd] fuel
    return .map .map [(k, v)]

/-- The value behind a key in brackets. -/
def flowValue (stops : List Token) : Nat → Parse Node
  | 0 => throw .structural
  | fuel + 1 => do
    if ← accept .value then nodeUnless stops false false fuel
    else
      let _ ← front
      return .absent

def flowEntries (first : Bool) : Nat → Parse (List (Node × Node))
  | 0 => throw .structural
  | fuel + 1 => do
    if ← accept .flowMappingEnd then return []
    else
      unless first do expect .flowEntry
      if ← accept .flowMappingEnd then return []
      else if ← accept .key then
        let k ← nodeUnless [.value, .flowEntry, .flowMappingEnd] false false fuel
        let v ← flowValue [.flowEntry, .flowMappingEnd] fuel
        return (k, v) :: (← flowEntries false fuel)
      else
        let k ← node false false fuel
        let _ ← front
        return (k, .absent) :: (← flowEntries false fuel)

end

end Nodes

section Documents

/-- Directives in front of a document: at most one version, which must be 1, and tag handles. -/
def directives : Nat → Bool → Table String String → Parse (Table String String)
  | 0, _, _ => throw .structural
  | fuel + 1, versioned, handles => do
    match ← front with
    | .directive d => do
      drop
      match d with
      | .version major =>
        if versioned || major != 1 then throw .structural
        directives fuel true handles
      | .tag handle expansion =>
        if Table.contains handles handle then throw .structural
        directives fuel versioned (Table.insert handles handle expansion)
      | .unknown => directives fuel versioned handles
    | _ => return handles

/-- The head of a document that begins with directives or with its mark. -/
def documentHead (fuel : Nat) : Parse Unit := do
  let own ← directives fuel false []
  expect .documentStart
  modify fun s => { s with
    handles := defaultHandles.foldl (fun t e => Table.insertNew t e.1 e.2) own }

def isDirective : Token → Bool
  | .directive _ => true
  | _ => false

def dropDocumentEnds : Nat → Parse Unit
  | 0 => return
  | fuel + 1 => do if ← accept .documentEnd then dropDocumentEnds fuel

/-- The content of a document behind its mark. -/
def documentContent (fuel : Nat) : Parse Node := do
  let t ← front
  if isDirective t || [Token.documentStart, .documentEnd, .streamEnd].contains t then return .absent
  else node true false fuel

/-- The one document of a text, if it has one. -/
def document (fuel : Nat) : Parse (Option Node) := do
  expect .streamStart
  let t ← front
  let n ←
    if isDirective t || t == .documentStart then do
      documentHead fuel
      some <$> documentContent fuel
    else if t == .streamEnd then pure none
    else some <$> node true false fuel
  if n.isSome then
    let _ ← accept .documentEnd
    dropDocumentEnds fuel
    unless ← sees [.streamEnd] do
      documentHead fuel
      throw .anchors
  return n

end Documents

end Parse

/-- The document of a text. -/
def Node.read? (cs : List Char) : Except ReadError (Option Node) :=
  let ts := Tokens.ofText cs
  let s : Parsing := ⟨ts.list, ts.failure.getD .tokens, Parse.defaultHandles, []⟩
  (·.1) <$> (Parse.document (3 * ts.list.length + 8)).run s

end BuildPipeline.Yaml
