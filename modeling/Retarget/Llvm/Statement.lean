import Retarget.Llvm.Value

/-!
# Statements in LLVM

A compound statement is a group of blocks, of which the last takes what follows.
-/

namespace Retarget.Llvm

structure Loop where
  continueTo : Label
  breakTo : Label
  deriving Repr, Inhabited

structure Style where
  debugInfo : Bool
  returns : Bool

/-- How expressions and statements are generated; statements depend on the loop around them. -/
structure Generators where
  expr : NodeId → Gen Operand
  stmt : Option Loop → NodeId → Gen Unit

namespace Gen

variable (r : Generators) (loop : Option Loop) (id : NodeId)

def body : Gen Unit := do
  let ids ← liftM ((← read).module.statementsOf .llvm id)
  ids.forM (r.stmt loop)

def effect : Gen Unit := do
  let _ ← r.expr id

def declarator : Gen Unit := do
  let node ← node id
  match node.kind with
  | .declarator _ init =>
    let value ← match init with
      | some init => r.expr init
      | none => pure nan
    let place ← variableAddress node (some node.id)
    instruction (.store value place)
  | _ => unsupported node "expected a VariableDeclarator"

def branchOn (test : NodeId) (taken other : Label) : Gen Unit := do
  let flag ← condition r.expr test
  terminator (.branch flag taken other)

def ifStatement (test consequent : NodeId) (alternate : Option NodeId) : Gen Unit := do
  let taken ← label .branch .taken
  let done ← label .branch .done
  match alternate with
  | some alternate =>
    let other ← label .branch .other
    branchOn r test taken other
    startBlock taken
    body r loop consequent
    jump done
    startBlock other
    body r loop alternate
    jump done
  | none =>
    branchOn r test taken done
    startBlock taken
    body r loop consequent
    jump done
  startBlock done

def whileStatement (testId bodyId : NodeId) : Gen Unit := do
  let test ← label .whileLoop .test
  let inside ← label .whileLoop .body
  let done ← label .whileLoop .done
  jump test
  startBlock test
  branchOn r testId inside done
  startBlock inside
  body r (some ⟨test, done⟩) bodyId
  jump test
  startBlock done

def doWhileStatement (bodyId testId : NodeId) : Gen Unit := do
  let inside ← label .doLoop .body
  let test ← label .doLoop .test
  let done ← label .doLoop .done
  jump inside
  startBlock inside
  body r (some ⟨test, done⟩) bodyId
  jump test
  startBlock test
  branchOn r testId inside done
  startBlock done

def forInit : Gen Unit := do
  match (← node id).kind with
  | .variableDecl .. => r.stmt loop id
  | _ => effect r id

def forStatement (initId testId updateId : Option NodeId) (bodyId : NodeId) : Gen Unit := do
  initId.forM (forInit r loop)
  let test ← label .forLoop .test
  let inside ← label .forLoop .body
  let update ← label .forLoop .update
  let done ← label .forLoop .done
  jump test
  startBlock test
  match testId with
  | some testId => branchOn r testId inside done
  | none => jump inside
  startBlock inside
  body r (some ⟨update, done⟩) bodyId
  jump update
  startBlock update
  updateId.forM (effect r)
  jump test
  startBlock done

def leave (node : Node) (target : Option Label) (reason : String) : Gen Unit :=
  match target with
  | some label => jump label
  | none => unsupported node reason

def sourceLine? (node : Node) : Option Nat :=
  if node.synthetic then none else node.span.map (·.start.line)

/-- Writes a statement whose parts are written by `r`. -/
def stmtStep (style : Style) (r : Generators) (loop : Option Loop) (id : NodeId) : Gen Unit := do
  let node ← node id
  if style.debugInfo then (sourceLine? node).forM fun line => modify (·.push (.comment line))
  match node.kind with
  | .exprStmt expression => effect r expression
  | .variableDecl _ ids => ids.forM (declarator r)
  | .block ids => ids.forM (r.stmt loop)
  | .empty => return
  | .ifStmt test consequent alternate => ifStatement r loop test consequent alternate
  | .whileStmt test body => whileStatement r test body
  | .doWhile body test => doWhileStatement r body test
  | .forStmt init test update body => forStatement r loop init test update body
  | .breakStmt => leave node (loop.map (·.breakTo)) "break outside of a loop"
  | .continueStmt => leave node (loop.map (·.continueTo)) "continue outside of a loop"
  | .returnStmt argument =>
    if !style.returns then unsupported node "return outside of a function"
    let value ← match argument with
      | some argument => r.expr argument
      | none => pure nan
    terminator (.ret value)
  | .functionDecl _ => unsupported node "nested functions need closures"
  | _ => unsupported node "outside the numeric subset"

/-- Writes a statement that is nested at most `depth` levels. -/
def stmt (style : Style) (expr : NodeId → Gen Operand) : (depth : Nat) → Option Loop → NodeId → Gen Unit
  | 0, _, id => throw (.cyclic .llvm id)
  | depth + 1, loop, id => stmtStep style ⟨expr, stmt style expr depth⟩ loop id

end Gen

end Retarget.Llvm
