import Retarget.Mlir.Canonical
import Retarget.Mlir.Expr
import Retarget.Mlir.Stmt
import Retarget.Target.Gather

/-!
# MLIR from modules
-/

namespace Retarget.Mlir

/-- Builds nodes that are nested at most `depth` levels. -/
def generators : (depth : Nat) → Generators
  | 0 => ⟨fun id => throw (.cyclic .mlir id), fun id => throw (.cyclic .mlir id)⟩
  | depth + 1 => ⟨Gen.exprStep (generators depth), Gen.stmtStep (generators depth)⟩

def generate (m : Module) : Except (List BackendError) (List Op) := do
  let r := generators m.levels
  let draft ← gatherSteps (fun draft id => (r.stmt id m draft).map (·.2)) {} m.body
  return draft.ops.toList

def emit (m : Module) (canonicalize : Bool) : Except (List BackendError) String := do
  let ops ← generate m
  return programText canonicalize (if canonicalize then canonical ops else ops)

end Retarget.Mlir
