import BuildPipeline.Failure.Basic
import BuildPipeline.Retry.Policy

/-!
Trials: what happens when an operation is carried out, and when it is tried again under a policy.
Attempts end with the first success, with the first failure that will not pass, or when there are
no more of them. Between two attempts one number is drawn and one wait is made.
-/
namespace BuildPipeline

inductive RetryEvent
  | exhausted (attempts attempt : Nat) (e : Failure)
  | refused (attempt : Nat) (e : Failure)
  | retrying (attempt : Nat) (delay : Float) (e : Failure)
  deriving DecidableEq

namespace RetryEvent

def level : RetryEvent → String
  | .retrying _ _ _ => "warning"
  | _ => "error"

def message : RetryEvent → String
  | .exhausted n _ e => s!"Operation failed after {n} attempts: {e.message}"
  | .refused _ e => s!"Non-retryable error encountered: {e.message}"
  | .retrying a d e =>
    s!"Attempt {a} failed, retrying in {Number.rounded d}ms. Error: {e.message}"

def fields : RetryEvent → Table String Value
  | .exhausted _ a e | .refused a e => [("attempt", .int a), ("error_type", .str e.kind)]
  | .retrying a d e =>
    [("attempt", .int a), ("delay_ms", .float d), ("error_type", .str e.kind)]

end RetryEvent

/-- How an operation came out: the answer of every call that was made, how many numbers were drawn,
the waits in seconds and the events, in order. -/
structure Trial (α : Type) where
  result : Except Failure α
  answers : List (Except Failure α)
  draws : Nat
  sleeps : List Float
  events : List RetryEvent

/-- An operation after so many calls and so many numbers drawn. -/
abbrev Operation (α : Type) := Nat → Nat → Trial α

namespace Trial
variable {α : Type}

/-- One call and nothing else. -/
def single (answer : Except Failure α) : Trial α := ⟨answer, [answer], 0, [], []⟩

/-- A trial that ends in a failure. -/
def failing (t : Trial α) (e : Failure) (draws : Nat) (events : List RetryEvent) : Trial α :=
  { t with result := .error e, draws := t.draws + draws, events := t.events ++ events }

/-- A failed trial, a wait, and what comes after it. -/
def retried (t : Trial α) (attempt : Nat) (e : Failure) (delay : Float) (rest : Trial α) :
    Trial α :=
  ⟨rest.result, t.answers ++ rest.answers, t.draws + 1 + rest.draws,
    t.sleeps ++ delay / 1000.0 :: rest.sleeps,
    t.events ++ .retrying attempt delay e :: rest.events⟩

/-- The same trial with nobody listening. -/
def silent (t : Trial α) : Trial α := { t with events := [] }

end Trial

/-- The operation whose call number `k`, counted from 0, is answered by `outcome k`. -/
def Operation.ofOutcomes {α : Type} (outcome : Nat → Except Failure α) : Operation α :=
  fun calls _ => .single (outcome calls)

namespace RetryPolicy
variable {α : Type}

/-- Attempts from number `attempt` on, with `left` more after it. -/
def tryFrom (p : RetryPolicy) (random : Nat → Float) (op : Operation α) :
    (left attempt calls draws : Nat) → Trial α
  | left, attempt, calls, draws =>
    let t := op calls draws
    match t.result, left with
    | .ok _, _ => t
    | .error e, 0 => t.failing e 0 [.exhausted p.attempts attempt e]
    | .error e, left + 1 =>
      match e.isTransient with
      | .error s => t.failing (.shape s) 0 []
      | .ok false => t.failing e 0 [.refused attempt e]
      | .ok true =>
        match p.rawDelay? attempt with
        | none => t.failing .tooLargeForFloat 0 []
        | some raw =>
          match p.jittered? raw (random (draws + t.draws)) with
          | none => t.failing .tooLargeForFloat 1 []
          | some d =>
            t.retried attempt e d (tryFrom p random op left (attempt + 1)
              (calls + t.answers.length) (draws + t.draws + 1))

/-- An operation tried under a policy, with the numbers `random 0`, `random 1` and so on. -/
def around (p : RetryPolicy) (random : Nat → Float) (op : Operation α) : Operation α :=
  fun calls draws => p.tryFrom random op (p.attempts - 1) 1 calls draws

/-- Tries an operation that has not been called before. -/
def run (p : RetryPolicy) (random : Nat → Float) (outcome : Nat → Except Failure α) : Trial α :=
  p.around random (.ofOutcomes outcome) 0 0

end RetryPolicy

end BuildPipeline
