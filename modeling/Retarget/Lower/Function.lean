import Retarget.Lower.Pattern

/-!
# Functions

Parameters become plain parameters. A default becomes a test at the start of the body, a pattern binds a
parameter of an invented name that is taken apart at the start of the body, and the parameter that collects
the remaining arguments is kept apart. The instance fields of a class are set in its constructor.
-/

namespace Retarget

open Syntax

inductive FunctionBody where
  | block (b : Block)
  | value (e : Expr)

structure FieldInit where
  key : Expr
  value : Option Expr
  computed : Bool
  pos : Pos

/-- The fields that a constructor sets: after its call of the parent's constructor in a derived class, and
at its start otherwise. -/
structure ConstructorFields where
  fields : List FieldInit := []
  derived : Bool := false

structure FunctionParts where
  params : List NodeId
  rest : Option NodeId
  body : NodeId
  returns : Option TypeDescriptor

def FunctionParts.toNode (parts : FunctionParts) (name : Option String) (isAsync : Bool) : FunctionNode :=
  ⟨name, parts.params, parts.rest, parts.body, isAsync⟩

def FunctionParts.type (parts : FunctionParts) : TypeDescriptor :=
  .function (parts.params.map fun _ => .any) (parts.returns.getD .any)

namespace LowerM

def memberName (key : Expr) (computed : Bool) (pos : Pos) : LowerM String :=
  if computed then unhandled "ComputedClassMember" pos
  else
    match key with
    | .identifier id => return id.name
    | .literal lit => return lit.key
    | other => unhandled (exprTypeName other) other.pos

variable (r : Lowerers) (params : List Pattern)

def fieldValue (name : String) (value : Option Expr) (pos : Pos) : LowerM NodeId :=
  match value with
  | some value => r.expr (some name) value
  | none => synthetic .undefined pos

def fieldInitializers (fields : List FieldInit) : LowerM (List NodeId) :=
  fields.mapM fun field => do
    let name ← memberName field.key field.computed field.pos
    let this ← synthetic .thisExpr field.pos
    let property ← synthetic (.string name) field.key.pos
    let target ← synthetic (.member this property false) field.pos
    let value ← fieldValue r name field.value field.pos
    let expression ← synthetic (assignment target value) field.pos
    synthetic (.exprStmt expression) field.pos

def declareParam (name : String) (pos : Pos) : LowerM NodeId := do
  let id ← node (.parameter name) pos
  bindName name id
  return id

def inventParam (stem : String) (pos : Pos) : LowerM Temp := do
  let name ← freshName stem
  let id ← synthetic (.parameter name) pos
  bindName name id
  return ⟨name, id⟩

def defaultParam (param : Temp) (fallback : Expr) (pos : Pos) : LowerM NodeId := do
  let test ← isUndefined param pos
  let value ← r.expr none fallback
  let target ← useTemp param pos
  let expression ← syntheticTyped (assignment target value) pos (← typeOf value)
  let stmt ← synthetic (.exprStmt expression) pos
  let block ← synthetic (.block [stmt]) pos
  synthetic (.ifStmt test block none) pos

def unpackParam (param : Temp) (pattern : Pattern) : LowerM NodeId := do
  let value ← useTemp param pattern.pos
  declareLowered r pattern value .letKind

/-- Parameters that have been lowered, and the statements at the start of the body that belong to them. -/
structure LoweredParams where
  params : List NodeId := []
  rest : Option NodeId := none
  prologue : List NodeId := []

def lowerParam : Pattern → LowerM (NodeId × List NodeId)
  | .idPattern id => do return (← declareParam id.name id.pos, [])
  | .defaultPattern (.idPattern id) fallback pos => do
    let param ← declareParam id.name id.pos
    return (param, [← defaultParam r ⟨id.name, param⟩ fallback pos])
  | .defaultPattern pattern fallback pos => do
    let param ← inventParam "param" pos
    let setting ← defaultParam r param fallback pos
    return (param.id, [setting, ← unpackParam r param pattern])
  | .memberPattern m => malformed "Parameter" "member expression in parameter position" m.pos
  | pattern => do
    let param ← inventParam "param" pattern.pos
    return (param.id, [← unpackParam r param pattern])

def lowerRestTarget : Pattern → LowerM (NodeId × List NodeId)
  | .idPattern id => do return (← declareParam id.name id.pos, [])
  | pattern => do
    let param ← inventParam "rest" pattern.pos
    return (param.id, [← unpackParam r param pattern])

def lowerParams (r : Lowerers) : List Pattern → LowerM LoweredParams
  | [] => return {}
  | [.restPattern argument pos] => do
    let (param, prologue) ← lowerRestTarget r argument
    return { rest := some (← node (.rest param) pos), prologue := prologue }
  | .restPattern _ pos :: _ => malformed "RestElement" "rest parameter must be last" pos
  | pattern :: more => do
    let (param, prologue) ← lowerParam r pattern
    let others ← lowerParams r more
    return { others with params := param :: others.params, prologue := prologue ++ others.prologue }

def isSuperCall (b : Builder) (stmt : NodeId) : Bool :=
  match b.kind? stmt with
  | some (.exprStmt expression) =>
    match b.kind? expression with
    | some (.call callee ..) => b.kind? callee == some .superExpr
    | _ => false
  | _ => false

def fieldPosition (b : Builder) (derived : Bool) (statements : List NodeId) : Nat :=
  if derived then
    match statements.findIdx? (isSuperCall b) with
    | some i => i + 1
    | none => 0
  else 0

def blockStatements (body : List Stmt) (pos : Pos) (constructor : ConstructorFields) : LowerM (List NodeId) := do
  let hoisted ← hoistVars body pos
  declareBlock body
  let own ← statements r (afterDirectives body)
  if constructor.fields.isEmpty then return hoisted.toList ++ own
  let inits ← fieldInitializers r constructor.fields
  let place := fieldPosition (← get).builder constructor.derived own
  return hoisted.toList ++ (own.take place ++ inits ++ own.drop place)

/-- The statements that return the value of an arrow function, and the type of the value. -/
def valueStatements (value : Expr) : LowerM (List NodeId × Option TypeDescriptor) := do
  let id ← r.expr none value
  let type ← typeOf id
  let ret ← synthetic (.returnStmt (some id)) value.pos
  let temps ← takePending [] value.pos
  return (temps.toList ++ [ret], type)

def functionInner (body : FunctionBody) (pos : Pos) (constructor : ConstructorFields) : LowerM FunctionParts := do
  let lowered ← lowerParams r params
  let temps ← takePending [] pos
  let (own, returns, bodyPos) ← match body with
    | .block (.block body bodyPos) => do
      pure (← blockStatements r body.toList bodyPos constructor, none, bodyPos)
    | .value value => do
      let (own, type) ← valueStatements r value
      pure (own, type, value.pos)
  let block ← synthetic (.block (temps.toList ++ lowered.prologue ++ own)) bodyPos
  return ⟨lowered.params, lowered.rest, block, returns⟩

def lowerFunction (body : FunctionBody) (isAsync : Bool) (pos : Pos)
    (constructor : ConstructorFields := {}) : LowerM FunctionParts :=
  inFunction isAsync (functionInner r params body pos constructor)

def functionDeclaration : Tree .function → LowerM NodeId
  | .function id params body isAsync generator pos => do
    if generator then unhandled "GeneratorFunction" pos
    match id with
    | none => malformed "FunctionDeclaration" "function declaration without a name" pos
    | some id =>
      let reserved ← reserved? id.name
      let parts ← lowerFunction r params.toList (.block body) isAsync pos
      let kind := Kind.functionDecl (parts.toNode (some id.name) isAsync)
      match reserved with
      | some reserved =>
        fill reserved kind pos
        setType reserved (some parts.type)
        return reserved
      | none =>
        let created ← typed kind pos (some parts.type)
        bindName id.name created
        return created

def functionExpression (hint : Option String) : Tree .function → LowerM NodeId
  | .function id params body isAsync generator pos => do
    if generator then unhandled "GeneratorFunction" pos
    let lowered := lowerFunction r params.toList (.block body) isAsync pos
    match id with
    | none =>
      let parts ← lowered
      typed (.functionExpr (parts.toNode hint isAsync)) pos (some parts.type)
    | some id =>
      let self ← reserve
      let parts ← inScope do
        bindName id.name self
        lowered
      fill self (.functionExpr (parts.toNode (some id.name) isAsync)) pos
      setType self (some parts.type)
      return self

def arrowBody : Tree .arrowBody → FunctionBody
  | .arrowBlock body => .block body
  | .arrowValue value => .value value

def arrowFunction (hint : Option String) (params : List Pattern) (body : Tree .arrowBody)
    (isAsync : Bool) (pos : Pos) : LowerM NodeId := do
  let parts ← lowerFunction r params (arrowBody body) isAsync pos
  typed (.arrow (parts.toNode hint isAsync)) pos (some parts.type)

end LowerM

end Retarget
