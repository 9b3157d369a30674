import BuildPipeline.Number.Binary64
import BuildPipeline.Text.Blank
import BuildPipeline.Text.Digit

/-!
Reading numbers: whole numbers in a base from 2 to 16 and floats. Blanks around a number do not
count, and digits of any script stand for their values.
-/
namespace BuildPipeline.Number
open BuildPipeline.Text

/-- Splits off one sign; `true` is minus. -/
def takeSign : List Char → Bool × List Char
  | '-' :: cs => (true, cs)
  | '+' :: cs => (false, cs)
  | cs => (false, cs)

/-- The value of a digit; letters stand for ten and more. -/
def baseDigit? (c : Char) : Option Nat :=
  match digit? c with
  | some d => some d
  | none =>
    if 'a' ≤ c ∧ c ≤ 'z' then some (c.toNat - 'a'.toNat + 10)
    else if 'A' ≤ c ∧ c ≤ 'Z' then some (c.toNat - 'A'.toNat + 10)
    else none

/-- The number that digits of base `b` spell; there must be one digit at least. -/
def digits? (b : Nat) : List Char → Option Nat
  | [] => none
  | cs => cs.foldlM (fun n c => do
      let d ← baseDigit? c
      if d < b then some (b * n + d) else none) 0

/-- A whole number in base `b`, which may carry the base's own mark `0x` or `0b`. -/
def readInt (b : Nat) (s : List Char) : Option Int :=
  let (negative, cs) := takeSign (trim s)
  let body := match cs with
    | '0' :: c :: r =>
      if (b = 16 ∧ (c = 'x' ∨ c = 'X')) ∨ (b = 2 ∧ (c = 'b' ∨ c = 'B'))
        ∨ (b = 8 ∧ (c = 'o' ∨ c = 'O')) then r else cs
    | _ => cs
  (digits? b body).map (signed negative)

/-- Digits at the front of a text, as values. -/
def spanDigits : List Char → List Nat × List Char
  | [] => ([], [])
  | c :: cs =>
    match digit? c with
    | some d => let (ds, r) := spanDigits cs; (d :: ds, r)
    | none => ([], c :: cs)

def ofDigits (ds : List Nat) : Nat := ds.foldl (fun n d => 10 * n + d) 0

/-- An exponent mark with its number, which may be missing. -/
def readExponent : List Char → Option Int
  | [] => some 0
  | c :: cs =>
    if c = 'e' ∨ c = 'E' then
      let (negative, cs) := takeSign cs
      match spanDigits cs with
      | ([], _) => none
      | (ds, []) => some (signed negative (ofDigits ds))
      | _ => none
    else none

/-- A float without sign and without blanks around it. -/
def readMagnitude (negative : Bool) (cs : List Char) : Option Float :=
  let word := cs.map Char.toLower
  if word = "inf".toList ∨ word = "infinity".toList then some (infinity negative)
  else if word = "nan".toList then some nan
  else
    let (ws, r) := spanDigits cs
    let (fs, r) := match r with
      | '.' :: r => spanDigits r
      | r => ([], r)
    if ws.isEmpty ∧ fs.isEmpty then none
    else (readExponent r).map fun e =>
      ofDecimal negative (ofDigits (ws ++ fs)) (e - fs.length)

def readFloat (s : List Char) : Option Float :=
  let (negative, cs) := takeSign (trim s)
  readMagnitude negative cs

end BuildPipeline.Number
