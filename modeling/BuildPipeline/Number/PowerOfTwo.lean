/-!
Powers of two as floats. Those below the smallest float are zero.
-/
namespace BuildPipeline.Number

/-- The float `2 ^ k`, unless it is beyond the greatest one. -/
def powerOfTwo? (k : Int) : Option Float :=
  if 1023 < k then none
  else if -1022 ≤ k then some (Float.ofBits (UInt64.ofNat ((k + 1023).toNat * Nat.pow 2 52)))
  else if -1074 ≤ k then some (Float.ofBits (UInt64.ofNat (Nat.pow 2 (k + 1074).toNat)))
  else some 0.0

end BuildPipeline.Number
