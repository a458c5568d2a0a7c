import Retarget.Mlir.Build

/-!
# Statements in MLIR

A compound statement is one operation, and its bodies are its regions.
-/

namespace Retarget.Mlir.Gen

variable (r : Generators) (id : NodeId)

def declarator (kind : DeclarationKind) (id : NodeId) : Gen Unit := do
  let node ← node id
  match node.kind with
  | .declarator name init =>
    let operands ← expr? r init
    push (.mk { opcode := .declare, operands, attrs := [("kind", .string kind.word), ("name", .string name)] } [])
  | _ => unsupported node "expected a VariableDeclarator"

def forInit : Gen Unit := do
  match (← node id).kind with
  | .variableDecl .. => r.stmt id
  | _ => effect r id

def forLoop (init test update : Option NodeId) (bodyId : NodeId) : Gen Op := do
  let init ← region (init.forM (forInit r))
  let test ← match test with
    | some test => yielding r test
    | none => pure []
  let update ← region (update.forM (effect r))
  let body ← body r bodyId
  return .mk { opcode := .forLoop } [init, test, update, body]

def handlerParts : Gen (Attrs × List Op) := do
  let node ← node id
  match node.kind with
  | .catchClause param bodyId =>
    let attrs ← match param with
      | some param => nameAttr "param" param
      | none => pure []
    return (attrs, ← body r bodyId)
  | _ => unsupported node "expected a CatchClause"

def tryBlock (block : NodeId) (handler finalizer : Option NodeId) : Gen Op := do
  let block ← body r block
  let (attrs, handler) ← match handler with
    | some handler => handlerParts r handler
    | none => pure ([], [])
  let finalizer ← body? r finalizer
  return .mk { opcode := .tryBlock, attrs } [block, handler, finalizer]

def switchCase : Gen Unit := do
  let node ← node id
  match node.kind with
  | .switchCase test consequent =>
    let operands ← expr? r test
    let attrs := if test.isNone then [("default", Attr.boolean true)] else []
    push (.mk { opcode := .caseOf, operands, attrs } [← region (consequent.forM r.stmt)])
  | _ => unsupported node "expected a SwitchCase"

/-- The operation of a statement whose parts are built by `r`. -/
def stmtOp (node : Node) : Gen Op := do
  match node.kind with
  | .functionDecl f => function r .function f
  | .classDecl c => classBody r c
  | .block ids => return .mk { opcode := .block } [← region (ids.forM r.stmt)]
  | .ifStmt test consequent alternate =>
    let condition ← r.expr test
    let alternate ← body? r alternate
    let consequent ← body r consequent
    return .mk { opcode := .branch, operands := [condition] } [consequent, alternate]
  | .forStmt init test update bodyId => forLoop r init test update bodyId
  | .forEach iterate binding iterable bodyId =>
    let iterable ← r.expr iterable
    let name ← nameAttr "name" binding
    let body ← body r bodyId
    let attrs := ("iterate", .string iterate.word) :: name
    return .mk { opcode := .forEach, operands := [iterable], attrs } [body]
  | .whileStmt test bodyId =>
    let test ← yielding r test
    return .mk { opcode := .whileLoop } [test, ← body r bodyId]
  | .doWhile bodyId test =>
    let body ← body r bodyId
    return .mk { opcode := .doWhile } [body, ← yielding r test]
  | .breakStmt => return .mk { opcode := .breakOut } []
  | .continueStmt => return .mk { opcode := .continueLoop } []
  | .returnStmt argument => return .mk { opcode := .returnValue, operands := ← expr? r argument } []
  | .throwStmt argument => return .mk { opcode := .throwValue, operands := [← r.expr argument] } []
  | .tryStmt block handler finalizer => tryBlock r block handler finalizer
  | .switchStmt discriminant cases =>
    let discriminant ← r.expr discriminant
    let cases ← region (cases.forM (switchCase r))
    return .mk { opcode := .switchOn, operands := [discriminant] } [cases]
  | _ => unsupported node "not a statement"

/-- Builds a statement whose parts are built by `r`. -/
def stmtStep : Gen Unit := do
  let node ← node id
  match node.kind with
  | .exprStmt expression => effect r expression
  | .variableDecl kind ids => ids.forM (declarator r kind)
  | .empty => return
  | _ => push (← stmtOp r node)

end Retarget.Mlir.Gen
