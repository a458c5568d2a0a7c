import Retarget.Lower.Expr

/-!
# Statements

A statement becomes a list of statements: a `var` declaration becomes its assignments, and everything else
becomes one. The bodies of loops and branches always become blocks.
-/

namespace Retarget

open Syntax

namespace LowerM

variable (r : Lowerers)

/-- What comes first in a `for` loop. -/
def forInit : Tree .forInit → LowerM (Option NodeId)
  | .initDeclaration (.declaration .varKind declarators pos) => do
    match ← varAssignments r declarators.toList with
    | [] => return none
    | [expression] => return some expression
    | expressions => return some (← synthetic (.sequence expressions) pos)
  | .initDeclaration d => do return some (← lexicalDeclaration r d)
  | .initExpr e => do return some (← r.expr none e)

/-- What a loop over a collection binds in each round: the kind of declaration, if it is one, and the
target. -/
def headTarget : Tree .forHead → LowerM (Option DeclarationKind × Pattern)
  | .headDeclaration (.declaration kind (.cons (.declarator target init pos) .nil) _) => do
    if init.toOption.isSome then
      malformed "ForEachStatement" "loop head binding cannot have an initializer" pos
    return (some kind, target)
  | .headDeclaration d => malformed "ForEachStatement" "loop head must declare exactly one binding" d.pos
  | .headPattern p => return (none, p)

/-- The variable of an invented name that a loop over a collection binds in each round. -/
def loopItem (pos : Pos) : LowerM Temp := do
  let name ← freshName "item"
  return ⟨name, ← synthetic (.declarator name none) pos⟩

/-- The binding of a loop over a collection, and the statements that its body starts with. -/
def loopBinding (kind : Option DeclarationKind) (target : Pattern) (pos : Pos) : LowerM (NodeId × List NodeId) := do
  match kind, target with
  | none, pattern | some .varKind, pattern =>
    let item ← loopItem pos
    let value ← useTemp item pattern.pos
    let expression ← assignLowered r pattern value pattern.pos
    return (item.id, [← synthetic (.exprStmt expression) pattern.pos])
  | some kind, .idPattern id => return (← declareName id.name none kind id.pos, [])
  | some kind, pattern =>
    let item ← loopItem pos
    let value ← useTemp item pattern.pos
    return (item.id, [← declareLowered r pattern value kind])

def lowerForEach (iterate : IterationKind) (left : Tree .forHead) (right : Expr)
    (body : Stmt) (pos : Pos) : LowerM NodeId := do
  let iterable ← r.expr none right
  let (binding, body) ← inScope do
    let (kind, target) ← headTarget left
    let (binding, before) ← loopBinding r kind target pos
    let body ← inLoop (bodyAfter r before body)
    pure (binding, body)
  node (.forEach iterate binding iterable body) pos

def catchParam : Pattern → LowerM (NodeId × List NodeId)
  | .idPattern id => do return (← declareParam id.name id.pos, [])
  | pattern => do
    let name ← freshName "err"
    let param ← synthetic (.parameter name) pattern.pos
    let value ← syntheticIdent name param pattern.pos
    return (param, [← declareLowered r pattern value .letKind])

def lowerCatch : Tree .catchClause → LowerM NodeId
  | .catchClause param body pos => inScope do
    let param ← param.toOption.mapM (catchParam r)
    let body ← blockAfter r ((param.map (·.2)).getD []) body
    node (.catchClause (param.map (·.1)) body) pos

def caseBody : Tree .switchCase → List Stmt
  | .switchCase _ consequent _ => consequent.toList

def lowerCase : Tree .switchCase → LowerM NodeId
  | .switchCase test consequent pos => do
    let test ← test.toOption.mapM (r.expr none)
    let consequent ← statements r consequent.toList
    node (.switchCase test consequent) pos

def lowerAlternate : Option Stmt → LowerM (Option NodeId)
  | none => return none
  | some (.ifStmt test consequent alternate pos) => do
    return (← r.stmt (.ifStmt test consequent alternate pos)).getLast?
  | some other => do return some (← bodyAfter r [] other)

def lowerSingle : Stmt → LowerM NodeId
  | .exprStmt value _ pos => do node (.exprStmt (← r.expr none value)) pos
  | .blockStmt b => blockAfter r [] b
  | .emptyStmt pos => node .empty pos
  | .variableStmt d => lexicalDeclaration r d
  | .functionStmt f => functionDeclaration r f
  | .classStmt c => classDeclaration r c
  | .returnStmt argument pos => do
    if !(← get).context.inFunction then malformed "ReturnStatement" "return outside of a function" pos
    let argument ← argument.toOption.mapM (r.expr none)
    node (.returnStmt argument) pos
  | .ifStmt test consequent alternate pos => do
    let test ← r.expr none test
    let consequent ← bodyAfter r [] consequent
    let alternate ← lowerAlternate r alternate.toOption
    node (.ifStmt test consequent alternate) pos
  | .forStmt init test update body pos => inScope do
    let init ← match init.toOption with
      | some init => forInit r init
      | none => pure none
    let test ← test.toOption.mapM (r.expr none)
    let update ← update.toOption.mapM (r.expr none)
    let body ← inLoop (bodyAfter r [] body)
    node (.forStmt init test update body) pos
  | .forIn left right body pos => lowerForEach r .keys left right body pos
  | .forOf left right body isAwait pos => do
    if isAwait then unhandled "ForAwaitStatement" pos
    lowerForEach r .values left right body pos
  | .whileStmt test body pos => do
    let test ← r.expr none test
    let body ← inLoop (bodyAfter r [] body)
    node (.whileStmt test body) pos
  | .doWhile test body pos => do
    let body ← inLoop (bodyAfter r [] body)
    let test ← r.expr none test
    node (.doWhile body test) pos
  | .breakStmt label pos => do
    if label.isSome then unhandled "LabeledBreak" pos
    let context := (← get).context
    if context.loopDepth = 0 ∧ context.switchDepth = 0 then
      malformed "BreakStatement" "break outside of a loop or switch" pos
    node .breakStmt pos
  | .continueStmt label pos => do
    if label.isSome then unhandled "LabeledContinue" pos
    if (← get).context.loopDepth = 0 then
      malformed "ContinueStatement" "continue outside of a loop" pos
    node .continueStmt pos
  | .throwStmt argument pos => do node (.throwStmt (← r.expr none argument)) pos
  | .tryStmt body handler finalizer pos => do
    let block ← blockAfter r [] body
    let handler ← handler.toOption.mapM (lowerCatch r)
    let finalizer ← finalizer.toOption.mapM (blockAfter r [])
    node (.tryStmt block handler finalizer) pos
  | .switchStmt discriminant cases pos => do
    let discriminant ← r.expr none discriminant
    let cases ← inSwitch do
      cases.toList.forM fun c => declareBlock (caseBody c)
      cases.toList.mapM (lowerCase r)
    node (.switchStmt discriminant cases) pos
  | .unsupportedStmt kind pos => unhandled kind.typeName pos

/-- Lowers a statement whose parts are lowered by `r`. -/
def lowerStmt : Stmt → LowerM (List NodeId)
  | .variableStmt (.declaration .varKind declarators pos) => do
    let assignments ← varAssignments r declarators.toList
    assignments.mapM fun expression => node (.exprStmt expression) pos
  | stmt => do return [← lowerSingle r stmt]

end LowerM

end Retarget
