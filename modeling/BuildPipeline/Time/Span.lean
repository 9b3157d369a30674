import BuildPipeline.Number.Binary64
import BuildPipeline.Time.Moment

/-!
Spans from one moment to a later one, as floats and in whole units. A span that runs backwards is
empty.
-/
namespace BuildPipeline.Time

/-- The float nearest to a number of microseconds in seconds. -/
def seconds (micros : Int) : Float := Number.ofDecimal (micros < 0) micros.natAbs (-6)

/-- Seconds on the clock of instants. -/
def secondsBetween (s t : Moment) : Float := seconds (t.instant - s.instant)

/-- The whole part of a float; nothing below zero. -/
def whole (x : Float) : Nat := ((Number.truncate? x).getD 0).toNat

def wholeSeconds (s t : Moment) : Nat := whole (secondsBetween s t)

def wholeMillis (s t : Moment) : Nat := whole (secondsBetween s t * 1000.0)

end BuildPipeline.Time
