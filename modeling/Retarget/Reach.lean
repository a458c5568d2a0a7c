import Std.Data.ExtTreeSet

/-!
# Reachability

`Reach.search` explores a graph on natural numbers breadth first, one layer a round. Run for more rounds
than there are nodes with successors, it finds everything that can be reached.
-/

namespace Retarget

abbrev IdSet := Std.ExtTreeSet Nat

namespace Reach

def addNew (ids : List Nat) (seen : IdSet) : List Nat × IdSet :=
  ids.foldl
    (fun (fresh, seen) id => if id ∈ seen then (fresh, seen) else (fresh ++ [id], seen.insert id))
    ([], seen)

/-- Adds to `seen` what can be reached from the frontier in at most `rounds` steps. -/
def search (next : Nat → List Nat) : (rounds : Nat) → (frontier : List Nat) → (seen : IdSet) → IdSet
  | 0, _, seen => seen
  | _ + 1, [], seen => seen
  | rounds + 1, frontier, seen =>
    let (fresh, seen) := addNew (frontier.flatMap next) seen
    search next rounds fresh seen

/-- What can be reached from the roots in at most `rounds` steps, the roots included. -/
def within (rounds : Nat) (next : Nat → List Nat) (roots : List Nat) : IdSet :=
  let (frontier, seen) := addNew roots ∅
  search next rounds frontier seen

end Reach

end Retarget
