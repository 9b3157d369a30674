import BuildPipeline.Text.Hex
import BuildPipeline.Text.Printable

/-!
Texts in quotes: the way a text shows inside a message or inside a list. A single quote is used
unless the text has one and has no double quote; what cannot be printed is written by number.
-/
namespace BuildPipeline.Text

def quoteFor (cs : List Char) : Char :=
  if cs.contains '\'' && !cs.contains '"' then '"' else '\''

def escaped (quote c : Char) : List Char :=
  if c = quote ∨ c = '\\' then ['\\', c]
  else if c = '\n' then ['\\', 'n']
  else if c = '\r' then ['\\', 'r']
  else if c = '\t' then ['\\', 't']
  else if isPrintable c then [c]
  else if c.toNat < 0x100 then '\\' :: 'x' :: hex 2 c.toNat
  else if c.toNat < 0x10000 then '\\' :: 'u' :: hex 4 c.toNat
  else '\\' :: 'U' :: hex 8 c.toNat

def quoted (s : String) : String :=
  let cs := s.toList
  let q := quoteFor cs
  String.ofList (q :: cs.flatMap (escaped q) ++ [q])

/-- Octets print as ASCII and by number outside it. -/
def escapedOctet (quote : Char) (b : UInt8) : List Char :=
  if 0x20 ≤ b.toNat ∧ b.toNat < 0x7F then escaped quote (Char.ofNat b.toNat)
  else if b.toNat = 0x0A ∨ b.toNat = 0x0D ∨ b.toNat = 0x09 then escaped quote (Char.ofNat b.toNat)
  else '\\' :: 'x' :: hex 2 b.toNat

def quotedOctets (bs : List UInt8) : String :=
  let q := quoteFor (bs.map fun b => Char.ofNat b.toNat)
  String.ofList ('b' :: q :: bs.flatMap (escapedOctet q) ++ [q])

end BuildPipeline.Text
