import Retarget.Lower.Monad
import Retarget.Lower.Names

/-!
# Declarations and statement lists

On entry to a block every name that it declares gets a reserved id, and the node is stored when the
declaration itself is reached. Variables declared by `var` are declared together at the top of the function
they belong to.
-/

namespace Retarget

open Syntax

inductive BindingMode where
  | declare (kind : DeclarationKind)
  | assign
  deriving DecidableEq, Repr

/-- How the parts of a program that can be nested in themselves are lowered. -/
structure Lowerers where
  expr : (hint : Option String) → Expr → LowerM NodeId
  stmt : Stmt → LowerM (List NodeId)
  /-- A pattern that takes a value apart: declarators or assignments in order, and the temporary that holds
  the whole value. -/
  destructure : BindingMode → Pattern → (value : NodeId) → LowerM (List NodeId × Option Temp)

namespace LowerM

variable (r : Lowerers) (body : List Stmt)

/-- Declares the `var` variables of a body at its top, and gives the declaration that holds them. -/
def hoistVars (pos : Pos) : LowerM (Option NodeId) := do
  let scopes := (← get).scopes
  let names := (body.flatMap Tree.varNames).eraseDups.filter fun name =>
    !(functionNames body).contains name && (scopes.local? name).isNone
  let declarators ← names.mapM fun name => do
    let id ← synthetic (.declarator name none) pos
    bindInFunction name id
    return id
  if declarators.isEmpty then return none
  return some (← synthetic (.variableDecl .varKind declarators) pos)

def declareBlock : LowerM Unit :=
  (lexicalNames body).forM fun name => do
    match ← reserved? name with
    | some _ => pure ()
    | none => bindName name (← reserve)

/-- Lowers statements one after the other; the temporaries of each are declared before it. -/
def statements : LowerM (List NodeId) := do
  let lowered ← body.mapM fun stmt => do
    let saved ← swapPending []
    let ids ← r.stmt stmt
    let temps ← takePending saved stmt.pos
    return temps.toList ++ ids
  return lowered.flatten

def scopedStatements : LowerM (List NodeId) := inScope do
  declareBlock body
  statements r body

def blockAfter (before : List NodeId) (b : Block) : LowerM NodeId :=
  match b with
  | .block body pos => do
    let ids ← scopedStatements r body.toList
    node (.block (before ++ ids)) pos

def bodyAfter (before : List NodeId) (stmt : Stmt) : LowerM NodeId :=
  match stmt with
  | .blockStmt b => blockAfter r before b
  | stmt => do
    let ids ← scopedStatements r [stmt]
    synthetic (.block (before ++ ids)) stmt.pos

def declareName (name : String) (init : Option NodeId) (kind : DeclarationKind) (pos : Pos) : LowerM NodeId := do
  let type ← match init with
    | some init => typeOf init
    | none => pure none
  let declarator := Kind.declarator name init
  let id ← match ← reserved? name with
    | some id => do
      fill id declarator pos
      pure id
    | none => do
      let id ← node declarator pos
      bindName name id
      pure id
  setType id type
  recordType id type
  if kind = .constKind then addConstant id
  return id

end LowerM

end Retarget
