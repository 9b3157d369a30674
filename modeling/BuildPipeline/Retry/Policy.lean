import BuildPipeline.Config.Settings
import BuildPipeline.Number.PowerOfTwo

/-!
Retry policies: how often an operation is tried and how long to wait after each failed attempt. The
wait doubles with every attempt if the policy is exponential, grows by up to a tenth at random, and
never passes the greatest delay. Whole delays double exactly, before they become floats.
-/
namespace BuildPipeline

/-- A number of milliseconds as it was written. -/
inductive Amount
  | whole (n : Int)
  | fraction (x : Float)
  deriving DecidableEq

def Amount.toFloat? : Amount → Option Float
  | .whole n => Number.ofInt? n
  | .fraction x => some x

/-- The amount `a * 2 ^ k`. A whole one stays whole as long as it is not halved. -/
def Amount.scale : Amount → Int → Option Amount
  | .whole n, .ofNat k => some (.whole (n * Nat.pow 2 k))
  | a, k => do
    let x ← a.toFloat?
    let y ← Number.powerOfTwo? k
    return .fraction (x * y)

structure RetryPolicy where
  maxAttempts : Int
  baseDelay : Amount
  maxDelay : Amount
  exponential : Bool
  deriving DecidableEq

namespace RetryPolicy

def ofSettings (s : RetrySettings) : RetryPolicy :=
  ⟨s.maxAttempts, .whole s.baseDelayMs, .whole s.maxDelayMs, s.exponentialBackoff⟩

def default : RetryPolicy := ofSettings .default

/-- An operation is tried at least once. -/
def attempts (p : RetryPolicy) : Nat := (max 1 p.maxAttempts).toNat

/-- The wait after an attempt before anything random is added. There is none if the base delay or
the factor is beyond the greatest float. -/
def rawDelay? (p : RetryPolicy) (attempt : Int) : Option Amount := do
  let base ← p.baseDelay.toFloat?
  if p.exponential then p.baseDelay.scale (attempt - 1) else return .fraction base

/-- Adds a tenth of the wait times a number drawn between 0 and 1, up to the greatest delay. -/
def jittered? (p : RetryPolicy) (raw : Amount) (drawn : Float) : Option Float := do
  let d ← raw.toFloat?
  let d := d + drawn * 0.1 * d
  let most ← p.maxDelay.toFloat?
  return if most < d then most else d

/-- Milliseconds to wait after an attempt, counted from 1. -/
def delay? (p : RetryPolicy) (attempt : Int) (drawn : Float) : Option Float := do
  p.jittered? (← p.rawDelay? attempt) drawn

end RetryPolicy

end BuildPipeline
