import BuildPipeline.Document.Value
import BuildPipeline.Text.Quoted

/-!
What can be wrong with a YAML text: its characters, its tokens, its structure, its anchors, the
content of its nodes, or the literal that an explicit tag asks for.
-/
namespace BuildPipeline.Yaml
open BuildPipeline.Text BuildPipeline.Time

/-- A text that is no literal of the type it is tagged with. -/
inductive LiteralError
  | int (base : Nat) (text : String)
  | float (text : String)
  | bool (text : String)
  | empty
  | timestamp
  | notText (kind : Kind)
  | time (e : TimeError)
  | tooLong (digits : Nat)
  | character
  | characterTooLarge
  deriving DecidableEq

inductive ReadError
  | characters
  | tokens
  | structural
  | anchors
  | content
  | literal (e : LiteralError)
  deriving DecidableEq

def LiteralError.kind : LiteralError → String
  | .bool _ => "KeyError"
  | .empty => "IndexError"
  | .timestamp => "AttributeError"
  | .notText _ => "TypeError"
  | .characterTooLarge => "OverflowError"
  | _ => "ValueError"

/-- A text in quotes, cut off after 200 characters. -/
def shortQuoted (text : String) : String := String.ofList ((quoted text).toList.take 200)

def LiteralError.message : LiteralError → String
  | .int base text => s!"invalid literal for int() with base {base}: {shortQuoted text}"
  | .float text => s!"could not convert string to float: {quoted text}"
  | .bool text => quoted text
  | .empty => "string index out of range"
  | .timestamp => "'NoneType' object has no attribute 'groupdict'"
  | .notText k => s!"expected string or bytes-like object, got '{k.name}'"
  | .time e => e.message
  | .tooLong n =>
    s!"Exceeds the limit (4300 digits) for integer string conversion: value has {n} digits; "
      ++ "use sys.set_int_max_str_digits() to increase the limit"
  | .character => "chr() arg not in range(0x110000)"
  | .characterTooLarge => "Python int too large to convert to C int"

def ReadError.kind : ReadError → String
  | .characters => "ReaderError"
  | .tokens => "ScannerError"
  | .structural => "ParserError"
  | .anchors => "ComposerError"
  | .content => "ConstructorError"
  | .literal e => e.kind

/-- Only a literal says what is wrong with it. -/
def ReadError.message? : ReadError → Option String
  | .literal e => some e.message
  | _ => none

end BuildPipeline.Yaml
