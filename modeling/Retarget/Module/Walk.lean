import Retarget.Module.Basic

/-!
# Walking a module

`Module.walk` visits the nodes depth first in the order of the source, each at most once, and reports when
a node is entered and left. A malformed module may own a node twice or in a circle; later visits are
skipped.
-/

namespace Retarget

inductive WalkEvent where
  | enter (node : Node)
  | leave (node : Node)
  deriving Repr

namespace Walk

structure State where
  seen : IdSet := ∅
  events : List WalkEvent := []

/-- Visits a node and what it owns, at most `fuel` levels deep; `descend` says whose children to visit. -/
def visit (nodes : NodeTable) (descend : Node → Bool) : (fuel : Nat) → State → NodeId → State
  | 0, s, _ => s
  | fuel + 1, s, id =>
    if id ∈ s.seen then s
    else
      let s := { s with seen := s.seen.insert id }
      match nodes[id]? with
      | none => s
      | some node =>
        let s := { s with events := .enter node :: s.events }
        let s := if descend node then node.kind.children.foldl (visit nodes descend fuel) s else s
        { s with events := .leave node :: s.events }

end Walk

namespace Module

def walkFrom (m : Module) (roots : List NodeId) (descend : Node → Bool) : List WalkEvent :=
  (roots.foldl (Walk.visit m.nodes descend (m.nodes.size + 1)) {}).events.reverse

def walk (m : Module) (descend : Node → Bool) : List WalkEvent := m.walkFrom m.body descend

end Module

end Retarget
