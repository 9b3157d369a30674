import BuildPipeline.Yaml.Literal
import BuildPipeline.Yaml.Node

/-!
From nodes to values. Collections are filled level by level, so of several errors the one nearest to
the root is reported, and of those on one level the first. `Content` keeps the errors of a node by
the level at which they show.
-/
namespace BuildPipeline.Yaml

structure Content where
  value : Value
  /-- The error of the node itself. -/
  now : Option ReadError
  /-- The errors of its levels, from its own content downwards. -/
  later : List (Option ReadError)

namespace Content

def failed (e : ReadError) : Content := ⟨.null, some e, []⟩

/-- A collection that turns out wrong when it is filled. -/
def wrong (v : Value) : Content := ⟨v, none, [some .content]⟩

def ofScalar : Except ReadError Scalar → Content
  | .ok s => ⟨.scalar s, none, []⟩
  | .error e => failed e

/-- Level by level the first error wins. -/
def joinLevels : List (Option ReadError) → List (Option ReadError) → List (Option ReadError)
  | [], bs => bs
  | as, [] => as
  | a :: as, b :: bs => a.or b :: joinLevels as bs

def levels (cs : List Content) : List (Option ReadError) :=
  cs.foldl (fun ls c => joinLevels ls c.later) []

def isKey (c : Content) : Bool :=
  match c.value with
  | .scalar _ => true
  | _ => false

/-- The first error among children. -/
def firstError (cs : List Content) : Option ReadError := cs.findSome? (·.now)

def ofItems (v : Value) (cs : List Content) : Content := ⟨v, none, firstError cs :: levels cs⟩

/-- The error of an entry: keys come first and have to be scalars. -/
def entryError (e : Content × Content) : Option ReadError :=
  e.1.now.or ((if e.1.isKey then none else some .content).or e.2.now)

def entryChildren (es : List (Content × Content)) : List Content :=
  es.flatMap fun e => [e.1, e.2]

def dictOf (es : List (Content × Content)) : Dict :=
  es.foldl (fun d e => match e.1.value with
    | .scalar s => Table.insert d s e.2.value
    | _ => d) []

def ofEntries (v : Dict → Value) (es : List (Content × Content)) : Content :=
  ⟨v (dictOf es), none, es.findSome? entryError :: levels (entryChildren es)⟩

/-- Pairs of an ordered mapping; `none` stands for an element that is no mapping of one entry. -/
def ofPairs (ps : List (Option (Content × Content))) : Content :=
  let es := ps.filterMap id
  let error : Option (Content × Content) → Option ReadError
    | none => some .content
    | some e => e.1.now.or e.2.now
  ⟨.list (es.map fun e => .pair e.1.value e.2.value), none,
    ps.findSome? error :: levels (entryChildren es)⟩

end Content

namespace Node

mutual

/-- The text that a mapping stands for: that of its entry under an equals sign. -/
def text? : Node → Option (List Char)
  | .scalar _ cs => some cs
  | .map _ es => textOf? es
  | _ => none

def textOf? : List (Node × Node) → Option (List Char)
  | [] => none
  | (k, v) :: es => if k.tag == .value then text? v else textOf? es

end

/-- A collection under the tag of a scalar. -/
def asScalar (t : Tag) (text : Option (List Char)) : Content :=
  match text with
  | none => .failed .content
  | some cs =>
    if t == .timestamp then .failed (.literal (.notText .list)) else .ofScalar (readScalar t cs)

/-- What a tag makes of an empty collection. -/
def emptyUnder : Tag → Option Value
  | .seq | .omap | .pairs => some (.list [])
  | .map => some (.dict [])
  | .set => some (.set [])
  | _ => none

def loopKind : Tag → Kind
  | .map => .dict
  | .set => .set
  | _ => .list

mutual

def content : Node → Content
  | .scalar t cs =>
    match emptyUnder t with
    | some v => .wrong v
    | none => .ofScalar (readScalar t cs)
  | .seq t ns =>
    match t with
    | .seq =>
      let cs := contents ns
      .ofItems (.list (cs.map (·.value))) cs
    | .omap | .pairs => .ofPairs (pairContents ns)
    | t => match emptyUnder t with
      | some v => .wrong v
      | none => asScalar t none
  | .map t es =>
    match t with
    | .map => .ofEntries .dict (entryContents es)
    | .set => .ofEntries (fun d => .set (Table.keys d)) (entryContents es)
    | t => match emptyUnder t with
      | some v => .wrong v
      | none => asScalar t (textOf? es)
  | .loop t _ => ⟨.loop (loopKind t), none, []⟩
  | .broken t => .wrong ((emptyUnder t).getD .null)

def contents : List Node → List Content
  | [] => []
  | n :: ns => content n :: contents ns

def entryContents : List (Node × Node) → List (Content × Content)
  | [] => []
  | (k, v) :: es => (content k, content v) :: entryContents es

def pairContents : List Node → List (Option (Content × Content))
  | [] => []
  | n :: ns =>
    (match n with
      | .map _ [(k, v)] => some (content k, content v)
      | _ => none) :: pairContents ns

end

/-- The value of a node, or its first error. -/
def value (n : Node) : Except ReadError Value :=
  let c := n.resolveMerges.content
  match (c.now :: c.later).findSome? id with
  | some e => .error e
  | none => .ok c.value

end Node

end BuildPipeline.Yaml
