import Retarget.Module.Basic
import Retarget.Target.Error

/-!
# Looking at a module

What all backends ask of a module.
-/

namespace Retarget

def Node.unsupported (node : Node) (target : Target) (reason : String) : BackendError :=
  .unsupported target node.kind.name node.id reason

namespace Kind

def isFunctionLike : Kind → Bool
  | functionDecl _ | functionExpr _ | arrow _ | classDecl _ | classExpr _ => true
  | _ => false

def isLoop : Kind → Bool
  | forStmt .. | forEach .. | whileStmt .. | doWhile .. => true
  | _ => false

def globalNumber? : Kind → Option Float
  | identifier "NaN" none => some (0.0 / 0.0)
  | identifier "Infinity" none => some (1.0 / 0.0)
  | _ => none

end Kind

namespace Module

def find (m : Module) (target : Target) (id : NodeId) : Except BackendError Node :=
  match m.node? id with
  | some node => .ok node
  | none => .error (.missingNode target id)

def statementsOf (m : Module) (target : Target) (id : NodeId) : Except BackendError (List NodeId) := do
  match (← m.find target id).kind with
  | .block body => return body
  | _ => return [id]

def levels (m : Module) : Nat := m.nodes.size + 1

/-- Whether `found` holds of a node at most `fuel` levels under `id` with no node in between that `stop`
holds of. -/
def scanWithin (m : Module) (found stop : Kind → Bool) : (fuel : Nat) → NodeId → Bool
  | 0, _ => false
  | fuel + 1, id =>
    match m.kind? id with
    | none => false
    | some kind => found kind || !stop kind && kind.children.any (scanWithin m found stop fuel)

/-- Whether `found` holds of a node under `id` with no node in between that `stop` holds of. -/
def scan (m : Module) (found stop : Kind → Bool) (id : NodeId) : Bool := m.scanWithin found stop m.levels id

end Module

end Retarget
