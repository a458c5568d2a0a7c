import Retarget.Module.Basic

/-!
# Owners of nodes

`Parents.ofNodes` records for every node which node owns it, and every further claim by another node.
Following owners upward ends at a root unless the ownership runs in a circle; `Parents.ancestors` and
`Parents.inCycle` stop there as well.
-/

namespace Retarget

structure OwnerConflict where
  child : NodeId
  first : NodeId
  second : NodeId
  deriving DecidableEq, Repr

structure Parents where
  owner : IdMap NodeId := ∅
  conflicts : List OwnerConflict := []

namespace Parents

/-- Records that `parent` owns `child`; the first owner stays. -/
def claim (parent : NodeId) (p : Parents) (child : NodeId) : Parents :=
  match p.owner[child]? with
  | none => { p with owner := p.owner.insert child parent }
  | some first =>
    if first == parent then p else { p with conflicts := p.conflicts ++ [⟨child, first, parent⟩] }

def ofNodes (nodes : List Node) : Parents :=
  nodes.foldl (fun p node => node.kind.children.foldl (claim node.id) p) {}

def parent? (p : Parents) (id : NodeId) : Option NodeId := p.owner[id]?

/-- The owners upward from `id`, at most `fuel` of them, as far as none repeats. -/
def chain (p : Parents) : (fuel : Nat) → (seen : IdSet) → NodeId → List NodeId
  | 0, _, _ => []
  | fuel + 1, seen, id =>
    match p.parent? id with
    | none => []
    | some parent =>
      if parent ∈ seen then [] else parent :: chain p fuel (seen.insert parent) parent

def ancestors (p : Parents) (id : NodeId) : List NodeId := p.chain (p.owner.size + 1) {id} id

/-- Whether `goal` is met on the way up from `id`, as far as no owner repeats. -/
def meets (p : Parents) (goal : NodeId) : (fuel : Nat) → (seen : IdSet) → NodeId → Bool
  | 0, _, _ => false
  | fuel + 1, seen, id =>
    match p.parent? id with
    | none => false
    | some parent =>
      parent == goal || (!decide (parent ∈ seen) && meets p goal fuel (seen.insert parent) parent)

def inCycle (p : Parents) (id : NodeId) : Bool := p.meets id (p.owner.size + 1) ∅ id

/-- Whether `ancestor` is `id` or one of its owners. -/
def isAncestorOrSelf (p : Parents) (ancestor id : NodeId) : Bool :=
  ancestor == id || (p.ancestors id).contains ancestor

end Parents

def Module.parents (m : Module) : Parents := .ofNodes m.nodes.values

end Retarget
