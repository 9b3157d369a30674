import BuildPipeline.Document.Value
import BuildPipeline.Number.Display
import BuildPipeline.Text.Quoted

/-!
Values as text. `text` is a value on its own; `literal` is a value inside another one or inside a
message, where texts stand in quotes.
-/
namespace BuildPipeline
open BuildPipeline.Text

def truthName (b : Bool) : String := if b then "True" else "False"

def Scalar.literal : Scalar → String
  | .null => "None"
  | .bool b => truthName b
  | .int n => toString n
  | .float x => Number.display x
  | .str s => quoted s
  | .bytes bs => quotedOctets bs
  | .date d => d.literal
  | .moment t => t.literal

def Scalar.text : Scalar → String
  | .str s => s
  | .date d => d.iso
  | .moment t => t.text ' '
  | s => s.literal

mutual

def Value.literal : Value → String
  | .scalar s => s.literal
  | .list vs => "[" ++ ", ".intercalate (Value.literals vs) ++ "]"
  | .pair k v => "(" ++ Value.literal k ++ ", " ++ Value.literal v ++ ")"
  | .dict es => "\x7b" ++ ", ".intercalate (Value.entryLiterals es) ++ "\x7d"
  | .set [] => "set()"
  | .set ks => "\x7b" ++ ", ".intercalate (ks.map Scalar.literal) ++ "\x7d"
  | .loop .list => "[...]"
  | .loop _ => "\x7b...\x7d"

def Value.literals : List Value → List String
  | [] => []
  | v :: vs => Value.literal v :: Value.literals vs

def Value.entryLiterals : List (Scalar × Value) → List String
  | [] => []
  | (k, v) :: es => (k.literal ++ ": " ++ Value.literal v) :: Value.entryLiterals es

end

def Value.text : Value → String
  | .scalar s => s.text
  | v => v.literal

end BuildPipeline
