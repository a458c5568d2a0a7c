import Retarget.Node.Json
import Retarget.Reach

/-!
# Control-flow graphs

A graph has one block for each stretch of statements that run one after the other, with the blocks that can
run next.
-/

namespace Retarget.Flow

structure Block where
  id : Nat
  statements : List NodeId
  successors : List Nat
  deriving DecidableEq, Repr, Inhabited

structure Graph where
  entry : Nat
  blocks : List Block
  deriving DecidableEq, Repr, Inhabited

namespace Block

def toJson (block : Block) : Json :=
  .obj [("id", .ofNat block.id), ("statements", .ofList .ofNat block.statements),
    ("successors", .ofList .ofNat block.successors)]

def ofJson? (value : Json) : Option Block := do
  let fields ← value.record? ["id", "statements", "successors"] 3
  return {
    id := ← Json.required Json.nat32? "id" fields
    statements := ← Json.required Json.ids? "statements" fields
    successors := ← Json.required (Json.list? Json.nat32?) "successors" fields }

end Block

namespace Graph

def block? (g : Graph) (id : Nat) : Option Block := g.blocks.find? (·.id == id)

def next (g : Graph) (id : Nat) : List Nat :=
  match g.block? id with
  | some block => block.successors
  | none => []

def reachable (g : Graph) : IdSet := Reach.within (g.blocks.length + 1) g.next [g.entry]

def toJson (g : Graph) : Json :=
  .obj [("entry", .ofNat g.entry), ("blocks", .ofList Block.toJson g.blocks)]

def ofJson? (value : Json) : Option Graph := do
  let fields ← value.record? ["entry", "blocks"] 2
  return {
    entry := ← Json.required Json.nat32? "entry" fields
    blocks := ← Json.required (Json.list? Block.ofJson?) "blocks" fields }

end Graph

end Retarget.Flow
