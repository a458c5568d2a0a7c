import Retarget.Module.Json
import Retarget.Validate.Invariants
import Retarget.Validate.Shape

/-!
# Validating documents

A document of the right shape is read and validated as a module. Of any other document the nodes that can
still be read are validated as well, and what is found adds to the problems of its shape; references to the
nodes that could not be read are not reported.
-/

namespace Retarget

structure Salvage where
  module : Module
  dropped : IdSet

namespace Salvage

def addNode (nodes : NodeTable) (dropped : IdSet) (key : String) (value : Json) : NodeTable × IdSet :=
  match Shape.looseNat? key with
  | none => (nodes, dropped)
  | some id =>
    if id < 0x100000000 then
      match Node.ofJson? value with
      | some node => (nodes.insert id node, dropped)
      | none => (nodes, dropped.insert id)
    else (nodes, dropped)

def ofJson? : Json → Option Salvage
  | .obj fields => do
    let table ← (← Json.lookup? "nodes" fields).object?
    let (nodes, dropped) := table.foldl
      (fun (nodes, dropped) (key, value) => addNode nodes dropped key value) (∅, ∅)
    let body := ((Json.lookup? "body" fields).bind Json.ids?).getD []
    let metadata := ((Json.lookup? "metadata" fields).bind Metadata.ofJson?).getD {}
    return ⟨⟨schemaVersion, nodes, body, metadata⟩, dropped⟩
  | _ => none

/-- The problems of the readable part, those of missing nodes left out where a node was dropped. -/
def problems (s : Salvage) : List Problem :=
  s.module.problems.filter fun p =>
    match p.missingNode? with
    | some id => !decide (id ∈ s.dropped)
    | none => true

end Salvage

def addMessages (errors more : List String) : List String :=
  more.foldl (fun errors error => if errors.contains error then errors else errors ++ [error]) errors

def validateDocument (document : Json) : Report :=
  let shape := (Shape.documentProblems document).map (·.message)
  if shape.isEmpty then
    match Module.ofJson? document with
    | some m => m.validate
    | none => ⟨["$: unreadable"]⟩
  else
    match Salvage.ofJson? document with
    | some s => ⟨addMessages shape (s.problems.map (·.message))⟩
    | none => ⟨shape⟩

def validateText (text : String) : Report :=
  match Json.parseValue? text with
  | some document => validateDocument document
  | none => ⟨["$: invalid JSON"]⟩

end Retarget
