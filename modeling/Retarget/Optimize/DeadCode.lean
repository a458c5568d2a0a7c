import Retarget.Optimize.Edit

/-!
# Dead-code elimination

Statements after one that never completes are dropped, declarations apart, and a branch whose test is a
literal is replaced by the side that is taken.
-/

namespace Retarget.DeadCode

def isDeclaration : Kind → Bool
  | .functionDecl _ | .classDecl _ | .variableDecl .. => true
  | _ => false

def holds (b : Builder) (test : Kind → Bool) (id : NodeId) : Bool := (b.kind? id).any test

def splitAfter? (test : α → Bool) : List α → Option (List α × List α)
  | [] => none
  | a :: more =>
    if test a then some ([a], more) else (splitAfter? test more).map fun (front, tail) => (a :: front, tail)

def liveStatements? (b : Builder) (statements : List NodeId) : Option (List NodeId) := do
  let (live, tail) ← splitAfter? (holds b Kind.isTerminator) statements
  let kept := tail.filter (holds b isDeclaration)
  if kept.length = tail.length then none else some (live ++ kept)

def truthiness? (b : Builder) (id : NodeId) : Option Bool := (b.kind? id).bind Kind.truthiness?

def givesLeft? (operator : LogicalOperator) (left : Kind) : Option Bool :=
  left.truthiness?.map fun truthy =>
    match operator with
    | .and => !truthy
    | .or => truthy
    | .nullish => left ≠ .null ∧ left ≠ .undefined

def plan (b : Builder) : Kind → Option Edit
  | .block body => (liveStatements? b body).map fun body => .kind (.block body)
  | .switchCase test consequent =>
    (liveStatements? b consequent).map fun consequent => .kind (.switchCase test consequent)
  | .ifStmt test consequent alternate =>
    (truthiness? b test).map fun
      | true => .copy consequent
      | false =>
        match alternate with
        | some alternate => .copy alternate
        | none => .kind .empty
  | .whileStmt test _ => if truthiness? b test = some false then some (.kind .empty) else none
  | .conditional test consequent alternate =>
    (truthiness? b test).map fun truthy => .copy (if truthy then consequent else alternate)
  | .logical operator left right =>
    ((b.kind? left).bind (givesLeft? operator)).map fun isLeft => .copy (if isLeft then left else right)
  | _ => none

def run (b : Builder) : Edited := do
  let body := liveStatements? b b.body
  let (changed, b) ← (b.setBody (body.getD b.body)).editAll plan
  return (body.isSome || changed, b)

end Retarget.DeadCode
