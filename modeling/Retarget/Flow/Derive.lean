import Retarget.Module.Basic

/-!
# Deriving control-flow graphs

`Flow.functionGraph?` draws the graph of a function from its structured body. A statement that branches is
recorded in the block that evaluates its test. Code that follows a jump is drawn as well, into blocks of its
own; at the end the blocks that cannot be reached are dropped and the others numbered anew in the order in
which they were made.
-/

namespace Retarget.Flow

abbrev Draft := List Block

abbrev Draw := StateM Draft

namespace Draw

def newBlock : Draw Nat := fun draft => (draft.length, draft ++ [⟨draft.length, [], []⟩])

def edge (source target : Nat) : Draw Unit :=
  modify fun draft => draft.modify source fun block =>
    if block.successors.contains target then block
    else { block with successors := block.successors ++ [target] }

def edgeFrom (source : Option Nat) (target : Nat) : Draw Unit :=
  match source with
  | some source => edge source target
  | none => pure ()

def record (block : Nat) (id : NodeId) : Draw Unit :=
  modify fun draft => draft.modify block fun block =>
    { block with statements := block.statements ++ [id] }

end Draw

inductive Frame where
  | loop (exit next : Nat)
  | switch (exit : Nat)
  | handler (entry : Nat)
  deriving DecidableEq, Repr

namespace Frame

def breakTarget? (frames : List Frame) : Option Nat :=
  frames.findSome? fun
    | loop exit _ | switch exit => some exit
    | handler _ => none

def continueTarget? (frames : List Frame) : Option Nat :=
  frames.findSome? fun
    | loop _ next => some next
    | _ => none

def throwTarget? (frames : List Frame) : Option Nat :=
  frames.findSome? fun
    | handler entry => some entry
    | _ => none

end Frame

open Draw

/-- Draws a statement into a block and gives the block in which control goes on, if it does. -/
abbrev DrawStatement := List Frame → (block : Nat) → NodeId → Draw (Option Nat)

/-- Draws statements one after the other; those after a jump start in a block of their own. -/
def drawList (draw : DrawStatement) (frames : List Frame) : Option Nat → List NodeId → Draw (Option Nat)
  | current, [] => pure current
  | current, id :: rest => do
    let block ← match current with
      | some block => pure block
      | none => newBlock
    drawList draw frames (← draw frames block id) rest

/-- A jump: the statement is recorded and control goes to the target, if there is one. -/
def drawJump (target : Option Nat) (block : Nat) (id : NodeId) : Draw (Option Nat) := do
  record block id
  match target with
  | some target => edge block target
  | none => pure ()
  return none

variable (draw : DrawStatement) (nodes : NodeTable) (frames : List Frame)

/-- Two branches that join again; without an alternate, control can go to the join at once. -/
def drawIf (block : Nat) (id consequent : NodeId) (alternate : Option NodeId) : Draw (Option Nat) := do
  record block id
  let join ← newBlock
  let thenBlock ← newBlock
  edge block thenBlock
  edgeFrom (← draw frames thenBlock consequent) join
  match alternate with
  | some alternate =>
    let elseBlock ← newBlock
    edge block elseBlock
    edgeFrom (← draw frames elseBlock alternate) join
  | none => edge block join
  return some join

def drawWhile (block : Nat) (id body : NodeId) : Draw (Option Nat) := do
  let header ← newBlock
  edge block header
  record header id
  let exit ← newBlock
  let bodyBlock ← newBlock
  edge header bodyBlock
  edge header exit
  edgeFrom (← draw (.loop exit header :: frames) bodyBlock body) header
  return some exit

def drawDoWhile (block : Nat) (id body : NodeId) : Draw (Option Nat) := do
  let bodyBlock ← newBlock
  edge block bodyBlock
  let test ← newBlock
  record test id
  let exit ← newBlock
  edgeFrom (← draw (.loop exit test :: frames) bodyBlock body) test
  edge test bodyBlock
  edge test exit
  return some exit

def drawFor (block : Nat) (id : NodeId) (tested : Bool) (body : NodeId) : Draw (Option Nat) := do
  let header ← newBlock
  edge block header
  record header id
  let exit ← newBlock
  let step ← newBlock
  let bodyBlock ← newBlock
  edge header bodyBlock
  if tested then edge header exit
  edgeFrom (← draw (.loop exit step :: frames) bodyBlock body) step
  edge step header
  return some exit

def caseParts (id : NodeId) : Bool × List NodeId :=
  match nodes.kind? id with
  | some (.switchCase test consequent) => (test.isNone, consequent)
  | _ => (false, [])

/-- The cases of a switch, each in its block; gives the block that falls out of the last case. -/
def drawCases (draw : DrawStatement) (nodes : NodeTable) (frames : List Frame) (block : Nat) :
    (fallthrough : Option Nat) → List (NodeId × Nat) → Draw (Option Nat)
  | fallthrough, [] => pure fallthrough
  | fallthrough, (id, caseBlock) :: rest => do
    edge block caseBlock
    edgeFrom fallthrough caseBlock
    let fallthrough ← drawList draw frames (some caseBlock) (caseParts nodes id).2
    drawCases draw nodes frames block fallthrough rest

def drawSwitch (block : Nat) (id : NodeId) (cases : List NodeId) : Draw (Option Nat) := do
  record block id
  let exit ← newBlock
  let caseBlocks ← cases.mapM fun _ => newBlock
  let fallthrough ← drawCases draw nodes (.switch exit :: frames) block none (cases.zip caseBlocks)
  edgeFrom fallthrough exit
  if !cases.any fun id => (caseParts nodes id).1 then edge block exit
  return some exit

def handlerBody? (id : NodeId) : Option NodeId :=
  match nodes.kind? id with
  | some (.catchClause _ body) => some body
  | _ => none

/-- A try: control can go to the handler from its start and from every throw in it; the finalizer follows
the normal end of both. -/
def drawTry (block : Nat) (id body : NodeId) (handler finalizer : Option NodeId) : Draw (Option Nat) := do
  record block id
  let join ← newBlock
  let after ← if finalizer.isSome then newBlock else pure join
  let bodyEntry ← newBlock
  edge block bodyEntry
  match handler with
  | none => edgeFrom (← draw frames bodyEntry body) after
  | some handler =>
    let handlerEntry ← newBlock
    edge bodyEntry handlerEntry
    edgeFrom (← draw (.handler handlerEntry :: frames) bodyEntry body) after
    record handlerEntry handler
    let handlerEnd ← match handlerBody? nodes handler with
      | some body => draw frames handlerEntry body
      | none => pure (some handlerEntry)
    edgeFrom handlerEnd after
  match finalizer with
  | some finalizer => edgeFrom (← draw frames after finalizer) join
  | none => pure ()
  return some join

/-- Draws a statement and what is nested in it, at most `fuel` levels deep. -/
def drawStatement (nodes : NodeTable) : (fuel : Nat) → DrawStatement
  | 0, _, block, _ => pure (some block)
  | fuel + 1, frames, block, id => do
    let draw := drawStatement nodes fuel
    match nodes.kind? id with
    | some (.block body) => drawList draw frames (some block) body
    | some (.ifStmt _ consequent alternate) => drawIf draw frames block id consequent alternate
    | some (.whileStmt _ body) | some (.forEach _ _ _ body) => drawWhile draw frames block id body
    | some (.doWhile body _) => drawDoWhile draw frames block id body
    | some (.forStmt _ test _ body) => drawFor draw frames block id test.isSome body
    | some (.switchStmt _ cases) => drawSwitch draw nodes frames block id cases
    | some (.tryStmt body handler finalizer) =>
      drawTry draw nodes frames block id body handler finalizer
    | some (.returnStmt _) => drawJump none block id
    | some (.throwStmt _) => drawJump (Frame.throwTarget? frames) block id
    | some .breakStmt => drawJump (Frame.breakTarget? frames) block id
    | some .continueStmt => drawJump (Frame.continueTarget? frames) block id
    | _ =>
      record block id
      return some block

def renumber? (kept : List Nat) (id : Nat) : Option Nat := kept.idxOf? id

def finish (entry : Nat) (draft : Draft) : Graph :=
  let kept := (Graph.reachable ⟨entry, draft⟩).toList
  { entry := (renumber? kept entry).getD 0
    blocks := draft.filterMap fun block => do
      let id ← renumber? kept block.id
      return ⟨id, block.statements, block.successors.filterMap (renumber? kept)⟩ }

def bodyGraph (body : NodeId) : Graph :=
  let (entry, draft) := newBlock.run []
  finish entry (drawStatement nodes (nodes.size + 1) [] entry body draft).2

def functionGraph? (id : NodeId) : Option Graph := do
  let node ← nodes[id]?
  let function ← node.kind.function?
  return bodyGraph nodes function.body

def deriveAll : IdMap Graph :=
  let functions := nodes.values.filter (·.kind.function?.isSome)
  Std.ExtTreeMap.ofList <| functions.filterMap fun node => do
    return (node.id, ← functionGraph? nodes node.id)

end Retarget.Flow
