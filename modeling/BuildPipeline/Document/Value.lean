import BuildPipeline.Number.Binary64
import BuildPipeline.Table
import BuildPipeline.Time.Moment

/-!
Documents: the values that configuration files, pipeline graphs and stored records are made of.
Keys are scalars, and two scalars are one key when they stand for the same number or instant.
-/
namespace BuildPipeline
open BuildPipeline.Time

inductive Scalar
  | null
  | bool (b : Bool)
  | int (n : Int)
  | float (x : Float)
  | str (s : String)
  | bytes (bs : List UInt8)
  | date (d : Date)
  | moment (t : Moment)
  deriving DecidableEq

inductive Kind
  | null
  | bool
  | int
  | float
  | str
  | bytes
  | date
  | moment
  | list
  | pair
  | dict
  | set
  deriving DecidableEq

def Kind.name : Kind → String
  | .null => "NoneType"
  | .bool => "bool"
  | .int => "int"
  | .float => "float"
  | .str => "str"
  | .bytes => "bytes"
  | .date => "date"
  | .moment => "datetime"
  | .list => "list"
  | .pair => "tuple"
  | .dict => "dict"
  | .set => "set"

/-- The name of a kind together with the family that it belongs to. -/
def Kind.fullName : Kind → String
  | .date => "datetime.date"
  | .moment => "datetime.datetime"
  | k => k.name

def Scalar.kind : Scalar → Kind
  | .null => .null
  | .bool _ => .bool
  | .int _ => .int
  | .float _ => .float
  | .str _ => .str
  | .bytes _ => .bytes
  | .date _ => .date
  | .moment _ => .moment

/-- What a key is known by. -/
inductive Identity
  | number (n : Int)
  | instant (micros : Int)
  | other (s : Scalar)
  deriving DecidableEq

/-- Truth values count as 0 and 1, whole floats as whole numbers, and moments with an offset as
instants. -/
def Scalar.identity : Scalar → Identity
  | .bool b => .number (if b then 1 else 0)
  | .int n => .number n
  | .float x => match Number.whole? x with
    | some n => .number n
    | none => .other (.float x)
  | .moment t => if t.offset.isSome then .instant t.instant else .other (.moment t)
  | s => .other s

/-- Equality of keys. -/
instance : BEq Scalar := ⟨fun a b => decide (a.identity = b.identity)⟩

theorem Scalar.beq_iff {a b : Scalar} : (a == b) = true ↔ a.identity = b.identity :=
  decide_eq_true_iff

instance : EquivBEq Scalar where
  rfl := Scalar.beq_iff.2 rfl
  symm h := Scalar.beq_iff.2 (Scalar.beq_iff.1 h).symm
  trans h k := Scalar.beq_iff.2 ((Scalar.beq_iff.1 h).trans (Scalar.beq_iff.1 k))

/-- A document. `loop` stands where a list or a mapping comes back inside itself. -/
inductive Value
  | scalar (s : Scalar)
  | list (vs : List Value)
  | pair (k v : Value)
  | dict (es : List (Scalar × Value))
  | set (ks : List Scalar)
  | loop (kind : Kind)

abbrev Dict := Table Scalar Value

mutual

def Value.same : Value → Value → Bool
  | .scalar a, .scalar b => decide (a = b)
  | .list as, .list bs => Value.sameList as bs
  | .pair k v, .pair k' v' => Value.same k k' && Value.same v v'
  | .dict es, .dict fs => Value.sameEntries es fs
  | .set ks, .set ks' => decide (ks = ks')
  | .loop k, .loop k' => decide (k = k')
  | _, _ => false

def Value.sameList : List Value → List Value → Bool
  | [], [] => true
  | a :: as, b :: bs => Value.same a b && Value.sameList as bs
  | _, _ => false

def Value.sameEntries : List (Scalar × Value) → List (Scalar × Value) → Bool
  | [], [] => true
  | (k, v) :: es, (k', v') :: fs => decide (k = k') && Value.same v v' && Value.sameEntries es fs
  | _, _ => false

end

mutual

theorem Value.same_iff : ∀ a b : Value, Value.same a b = true ↔ a = b
  | .scalar a, b => by cases b <;> simp [Value.same]
  | .list as, b => by cases b <;> simp [Value.same, Value.sameList_iff as]
  | .pair k v, b => by cases b <;> simp [Value.same, Value.same_iff k, Value.same_iff v]
  | .dict es, b => by cases b <;> simp [Value.same, Value.sameEntries_iff es]
  | .set ks, b => by cases b <;> simp [Value.same]
  | .loop k, b => by cases b <;> simp [Value.same]

theorem Value.sameList_iff : ∀ as bs : List Value, Value.sameList as bs = true ↔ as = bs
  | [], bs => by cases bs <;> simp [Value.sameList]
  | a :: as, bs => by
    cases bs <;> simp [Value.sameList, Value.same_iff a, Value.sameList_iff as]

theorem Value.sameEntries_iff :
    ∀ es fs : List (Scalar × Value), Value.sameEntries es fs = true ↔ es = fs
  | [], fs => by cases fs <;> simp [Value.sameEntries]
  | (k, v) :: es, fs => by
    cases fs with
    | nil => simp [Value.sameEntries]
    | cons f fs =>
      obtain ⟨k', v'⟩ := f
      simp [Value.sameEntries, Value.same_iff v, Value.sameEntries_iff es]

end

instance : DecidableEq Value := fun a b => decidable_of_iff _ (Value.same_iff a b)

namespace Value

abbrev null : Value := .scalar .null
abbrev bool (b : Bool) : Value := .scalar (.bool b)
abbrev int (n : Int) : Value := .scalar (.int n)
abbrev float (x : Float) : Value := .scalar (.float x)
abbrev str (s : String) : Value := .scalar (.str s)

def ofOption : Option String → Value
  | none => .null
  | some s => .str s

def ofStrings (ss : List String) : Value := .list (ss.map .str)

def ofTable (t : Table String Value) : Value := .dict (t.map fun e => (.str e.1, e.2))

def ofTexts (t : Table String String) : Value := ofTable (t.mapValues .str)

def kind : Value → Kind
  | .scalar s => s.kind
  | .list _ => .list
  | .pair _ _ => .pair
  | .dict _ => .dict
  | .set _ => .set
  | .loop k => k

/-- Nothing, zero and whatever is empty count as false. -/
def truthy : Value → Bool
  | .scalar .null => false
  | .scalar (.bool b) => b
  | .scalar (.int n) => n != 0
  | .scalar (.float x) => !(x == 0.0)
  | .scalar (.str s) => s != ""
  | .scalar (.bytes bs) => !bs.isEmpty
  | .list vs => !vs.isEmpty
  | .dict es => !es.isEmpty
  | .set ks => !ks.isEmpty
  | _ => true

/-- The value itself, or `v` in place of one that counts as false. -/
def orElse (w v : Value) : Value := if w.truthy then w else v

end Value

namespace Dict

def field (d : Dict) (name : String) : Option Value := Table.get? d (.str name)

def fieldD (d : Dict) (name : String) : Value := (field d name).getD .null

def set (d : Dict) (name : String) (v : Value) : Dict := Table.insert d (.str name) v

def of (t : Table String Value) : Dict := t.map fun e => (.str e.1, e.2)

end Dict

end BuildPipeline
