import Retarget.Builder.Build
import Retarget.Optimize.DeadCode
import Retarget.Optimize.Fold
import Retarget.Optimize.Inline

/-!
# The optimizer

A pipeline runs its passes in ascending order of priority, round after round, until a round changes nothing
or the limit of rounds is reached. What is no longer referred to is then pruned, and the result is built and
validated again.
-/

namespace Retarget

structure Pass where
  name : String
  priority : Int
  run : Builder → Edited

namespace Pass

def inlining : Pass := ⟨"trivial-inlining", 10, Inline.run⟩

def folding : Pass := ⟨"constant-folding", 20, Fold.run⟩

def deadCode : Pass := ⟨"dead-code-elimination", 30, DeadCode.run⟩

def idle (name : String) (priority : Int) : Pass := ⟨name, priority, fun b => .ok (false, b)⟩

end Pass

structure Pipeline where
  passes : List Pass := []
  maxRounds : Nat := 8

namespace Pipeline

def register (p : Pipeline) (pass : Pass) : Pipeline :=
  let (front, back) := p.passes.span (·.priority ≤ pass.priority)
  { p with passes := front ++ pass :: back }

def ofPasses (passes : List Pass) : Pipeline := passes.foldl register {}

def standard : Pipeline := ofPasses [.inlining, .folding, .deadCode]

def withMaxRounds (p : Pipeline) (rounds : Nat) : Pipeline := { p with maxRounds := max rounds 1 }

def names (p : Pipeline) : List String := p.passes.map (·.name)

def runPasses : List Pass → Builder → Edited
  | [], b => .ok (false, b)
  | pass :: more, b => do
    let (changed, b) ← pass.run b
    let (others, b) ← runPasses more b
    return (changed || others, b)

/-- Runs at most `limit` rounds, and counts those that changed something. -/
def runRounds (passes : List Pass) : (limit : Nat) → Builder → Except BuilderError (Nat × Builder)
  | 0, b => .ok (0, b)
  | limit + 1, b => do
    let (changed, b) ← runPasses passes b
    if changed then
      let (rounds, b) ← runRounds passes limit b
      return (rounds + 1, b)
    else return (0, b)

/-- Runs the passes until nothing changes, and counts the rounds that changed something. -/
def run (p : Pipeline) (b : Builder) : Except BuilderError (Nat × Builder) :=
  runRounds p.passes p.maxRounds b

def apply (p : Pipeline) (m : Module) : Except BuilderError Module := do
  let (_, b) ← p.run (.ofModule m)
  let (_, b) := b.pruneUnreachable
  b.build

end Pipeline

end Retarget
