/-!
Capital letters as far as they are ASCII. A character whose capital form lies outside ASCII stays
as it is, so that the result is compared with ASCII texts alone.
-/
namespace BuildPipeline.Text

/-- Characters outside ASCII whose capital form is ASCII. -/
def foreignCapitals : List (Char × List Char) :=
  [('ß', ['S', 'S']), ('ı', ['I']), ('ſ', ['S']), ('ﬀ', ['F', 'F']), ('ﬁ', ['F', 'I']),
    ('ﬂ', ['F', 'L']), ('ﬃ', ['F', 'F', 'I']), ('ﬄ', ['F', 'F', 'L']), ('ﬅ', ['S', 'T']),
    ('ﬆ', ['S', 'T'])]

def upperChar (c : Char) : List Char :=
  if 'a' ≤ c ∧ c ≤ 'z' then [Char.ofNat (c.toNat - 32)]
  else ((foreignCapitals.find? (·.1 == c)).map (·.2)).getD [c]

def upper (s : String) : String := String.ofList (s.toList.flatMap upperChar)

end BuildPipeline.Text
