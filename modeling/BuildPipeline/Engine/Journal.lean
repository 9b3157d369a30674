import BuildPipeline.Trigger.Basic

/-!
The journal of an engine: every call of a trigger with its answer, every wait, and how many numbers
have been drawn. Triggers answer in view of the calls that the journal holds.
-/
namespace BuildPipeline

inductive Call
  | build (call : BuildCall) (answer : Except Failure (Option BuildStart))
  | deploy (call : DeployCall) (answer : Except Failure (Option Deployment))

structure Journal where
  calls : List Call
  sleeps : List Float
  draws : Nat

namespace Journal

def empty : Journal := ⟨[], [], 0⟩

def buildCall? : Call → Option BuildCall
  | .build c _ => some c
  | .deploy _ _ => none

def deployCall? : Call → Option DeployCall
  | .build _ _ => none
  | .deploy c _ => some c

def buildCalls (j : Journal) : List BuildCall := j.calls.filterMap buildCall?

def deployCalls (j : Journal) : List DeployCall := j.calls.filterMap deployCall?

/-- Enters a trial; `call` makes an entry of an answer. -/
def enter {α : Type} (j : Journal) (t : Trial α) (call : Except Failure α → Call) : Journal :=
  ⟨j.calls ++ t.answers.map call, j.sleeps ++ t.sleeps, j.draws + t.draws⟩

end Journal

end BuildPipeline
