import Retarget.Wasm.Value

/-!
# Statements in WebAssembly

The code of a statement leaves the stack as it was. A loop is a block that can be left around a loop that can
be repeated; where something runs after the body, the body is a block of its own.

A statement that fails may have opened blocks. The statements after it are generated as if they stood inside
these blocks; this decides which of their jumps are reported, too.
-/

namespace Retarget.Wasm

inductive Label where
  | breakTo | continueTo | other
  deriving DecidableEq, Repr, Inhabited

abbrev Labels := List Label

structure Failure where
  error : BackendError
  labels : Labels
  deriving Repr

abbrev StmtGen := ReaderT NumericScope (StateT Nat (Except Failure))

namespace StmtGen

def lift (labels : Labels) (g : Gen α) : StmtGen α := fun scope scratch =>
  (g scope scratch).mapError (⟨·, labels⟩)

def unsupported (labels : Labels) (node : Node) (reason : String) : StmtGen α :=
  lift labels (Gen.unsupported node reason)

structure Generators where
  expr : NodeId → Gen Code
  stmt : Labels → NodeId → StmtGen Code

variable (returns : Bool) (r : Generators) (labels : Labels)

def statements (ids : List NodeId) : StmtGen Code := do
  return (← ids.mapM (r.stmt labels)).flatten

def body (id : NodeId) : StmtGen Code := do
  match (← read).module.statementsOf .wasm id with
  | .ok ids => statements r labels ids
  | .error e => throw ⟨e, labels⟩

def effect (id : NodeId) : StmtGen Code := do
  return (← lift labels (r.expr id)) ++ [.drop]

def declarator (id : NodeId) : Gen Code := do
  let node ← Gen.node id
  match node.kind with
  | .declarator _ init =>
    let value ← match init with
      | some init => r.expr init
      | none => pure [Gen.nan]
    let slot ← Gen.slot node (some node.id)
    return value ++ (← Gen.store node slot) ++ [.drop]
  | _ => Gen.unsupported node "expected a VariableDeclarator"

def jump (node : Node) (wanted : Label) (reason : String) : StmtGen Code :=
  match labels.idxOf? wanted with
  | some depth => return [.br depth]
  | none => unsupported labels node reason

def ifStatement (test consequent : NodeId) (alternate : Option NodeId) : StmtGen Code := do
  let test ← lift labels (Gen.condition r.expr test)
  let inside := .other :: labels
  let consequent ← body r inside consequent
  match alternate with
  | some alternate => return test ++ [.ifElse false consequent (← body r inside alternate)]
  | none => return test ++ [.ifThen consequent]

def whileStatement (test bodyId : NodeId) : StmtGen Code := do
  let inside := .continueTo :: .breakTo :: labels
  let test ← lift inside (Gen.condition r.expr test)
  let body ← body r inside bodyId
  return [.block [.loop (test ++ [.isZero, .brIf 1] ++ body ++ [.br 0])]]

def doWhileStatement (bodyId test : NodeId) : StmtGen Code := do
  let inside := .other :: .breakTo :: labels
  let body ← body r (.continueTo :: inside) bodyId
  let test ← lift inside (Gen.condition r.expr test)
  return [.block [.loop (.block body :: test ++ [.brIf 0])]]

def forInit : Option NodeId → StmtGen Code
  | none => return []
  | some id => do
    match (← lift labels (Gen.node id)).kind with
    | .variableDecl .. => r.stmt labels id
    | _ => effect r labels id

/-- The code of the test of a counting loop, which leaves the loop when it fails. -/
def forTest : Option NodeId → StmtGen Code
  | none => return []
  | some id => return (← lift labels (Gen.condition r.expr id)) ++ [.isZero, .brIf 1]

def forUpdate : Option NodeId → StmtGen Code
  | none => return []
  | some id => effect r labels id

def forStatement (init test update : Option NodeId) (bodyId : NodeId) : StmtGen Code := do
  let init ← forInit r labels init
  let inside := .other :: .breakTo :: labels
  let test ← forTest r inside test
  let body ← body r (.continueTo :: inside) bodyId
  let update ← forUpdate r inside update
  return init ++ [.block [.loop (test ++ .block body :: update ++ [.br 0])]]

def returnStatement (node : Node) (argument : Option NodeId) : StmtGen Code := do
  if !returns then unsupported labels node "return outside of a function"
  match argument with
  | some argument => return (← lift labels (r.expr argument)) ++ [.ret]
  | none => return [Gen.nan, .ret]

def stmtStep (id : NodeId) : StmtGen Code := do
  let node ← lift labels (Gen.node id)
  match node.kind with
  | .exprStmt expression => effect r labels expression
  | .variableDecl _ ids => lift labels do return (← ids.mapM (declarator r)).flatten
  | .block ids => statements r labels ids
  | .empty => return []
  | .ifStmt test consequent alternate => ifStatement r labels test consequent alternate
  | .whileStmt test body => whileStatement r labels test body
  | .doWhile body test => doWhileStatement r labels body test
  | .forStmt init test update body => forStatement r labels init test update body
  | .breakStmt => jump labels node .breakTo "break outside of a loop"
  | .continueStmt => jump labels node .continueTo "continue outside of a loop"
  | .returnStmt argument => returnStatement returns r labels node argument
  | .functionDecl _ => unsupported labels node "nested functions need closures"
  | _ => unsupported labels node "outside the numeric subset"

/-- The code of a statement that is nested at most `depth` levels. -/
def stmt (returns : Bool) (expr : NodeId → Gen Code) : (depth : Nat) → Labels → NodeId → StmtGen Code
  | 0, labels, id => throw ⟨.cyclic .wasm id, labels⟩
  | depth + 1, labels, id => stmtStep returns ⟨expr, stmt returns expr depth⟩ labels id

end StmtGen

end Retarget.Wasm
