import Retarget.Builder.Basic

/-!
# Editing a program in place

A pass decides for each node, in the order of the table, what becomes of it. Nodes that are no longer
referred to stay in the builder until they are pruned.
-/

namespace Retarget

inductive Edit where
  | literal (kind : Kind)
  | copy (source : NodeId)
  | kind (kind : Kind)
  deriving DecidableEq, Repr

def Kind.literalType? : Kind → Option TypeDescriptor
  | .number _ => some .number
  | .string _ => some .string
  | .boolean _ => some .boolean
  | _ => none

abbrev Edited := Except BuilderError (Bool × Builder)

namespace Builder

def replaceTyped (b : Builder) (id : NodeId) (kind : Kind) (type : Option TypeDescriptor) : Edited := do
  let b ← b.replace id kind
  return (true, ← b.setType id type)

/-- Edits a node. A node that names can be bound to is not copied, since the names would still refer to
the first one. -/
def edit (b : Builder) (id : NodeId) : Edit → Edited
  | .literal kind => b.replaceTyped id kind kind.literalType?
  | .copy source =>
    match b.node? source with
    | none => .ok (false, b)
    | some node => if node.kind.isBinding then .ok (false, b) else b.replaceTyped id node.kind node.type
  | .kind kind => do return (true, ← b.replace id kind)

/-- Edits a node if `plan` says what becomes of it. -/
def editNode (plan : Builder → Kind → Option Edit) (b : Builder) (id : NodeId) : Edited :=
  match (b.kind? id).bind (plan b) with
  | some step => b.edit id step
  | none => .ok (false, b)

def editList (plan : Builder → Kind → Option Edit) : List NodeId → Builder → Edited
  | [], b => .ok (false, b)
  | id :: ids, b => do
    let (changed, b) ← b.editNode plan id
    let (more, b) ← editList plan ids b
    return (changed || more, b)

def editAll (plan : Builder → Kind → Option Edit) (b : Builder) : Edited :=
  editList plan b.nodes.keys b

end Builder

end Retarget
