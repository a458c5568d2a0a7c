import Retarget.Optimize.Edit

/-!
# Inlining

Calls of two shapes of top-level functions are replaced by their result: functions that return a literal and
functions that return their only parameter. A function that is ever assigned to is left alone, and only a
literal or a name is put in the place of a call.
-/

namespace Retarget.Inline

inductive Shape where
  | constant (literal : NodeId)
  | identity
  deriving DecidableEq, Repr

variable (b : Builder)

def written? : Kind → Option NodeId
  | .assign _ target _ | .update _ _ target =>
    match b.kind? target with
    | some (.identifier _ binding) => binding
    | _ => none
  | _ => none

def assigned : IdSet :=
  .ofList (b.nodes.values.filterMap fun node => written? b node.kind)

def returned? (f : FunctionNode) : Option NodeId :=
  match b.kind? f.body with
  | some (.block [only]) =>
    match b.kind? only with
    | some (.returnStmt value) => value
    | _ => none
  | _ => none

def shape? (f : FunctionNode) : Option Shape := do
  let value ← returned? b f
  match ← b.kind? value with
  | .identifier _ (some binding) => if f.params = [binding] then some .identity else none
  | kind => if kind.truthiness?.isSome && f.params.isEmpty then some (.constant value) else none

def candidate? (id : NodeId) : Option Shape :=
  match b.kind? id with
  | some (.functionDecl f) => if f.isAsync || f.rest.isSome then none else shape? b f
  | _ => none

def candidates : IdMap Shape :=
  let assigned := assigned b
  b.body.foldl (fun found id =>
    match if id ∈ assigned then none else candidate? b id with
    | some shape => found.insert id shape
    | none => found) ∅

def isSimple : Kind → Bool
  | .identifier .. => true
  | kind => kind.truthiness?.isSome

def result? : Shape → List ListItem → Option NodeId
  | .constant literal, [] => some literal
  | .identity, [argument] => if (b.kind? argument.value).any isSimple then some argument.value else none
  | _, _ => none

def plan (candidates : IdMap Shape) (b : Builder) : Kind → Option Edit
  | .call callee arguments false =>
    match b.kind? callee with
    | some (.identifier _ (some function)) => do
      return .copy (← result? b (← candidates[function]?) arguments)
    | _ => none
  | _ => none

def run : Edited := b.editAll (plan (candidates b))

end Retarget.Inline
