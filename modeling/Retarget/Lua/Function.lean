import Retarget.Lua.Generate

/-!
# Functions and classes in Lua

Function declarations come first in their block, so that they can be called before their definition; the
names that the block declares are then declared ahead of them. A class is a table with an `__index` chain,
and an instance is made by its function `new`.
-/

namespace Retarget.Lua.Gen

def isFunctionDecl (m : Module) (id : NodeId) : Bool :=
  match m.kind? id with
  | some (.functionDecl _) => true
  | _ => false

def declarations (m : Module) (id : NodeId) : List (NodeId × String) :=
  match m.kind? id with
  | some (.variableDecl _ ids) =>
    ids.filterMap fun id =>
      match m.kind? id with
      | some (.declarator name _) => some (id, nameOf name)
      | _ => none
  | some (.classDecl c) => [(id, nameOf c.name)]
  | _ => []

def functionName? (m : Module) (id : NodeId) : Option String :=
  match m.kind? id with
  | some (.functionDecl f) => f.name.map nameOf
  | _ => none

/-- Generates each statement but the last with `false`, and the last with `true`. -/
def inOrder (generate : (last : Bool) → NodeId → Gen (List Stmt)) : List NodeId → Gen (List Stmt)
  | [] => return []
  | [id] => orReport (generate true id)
  | id :: more => do
    let first ← orReport (generate false id)
    return first ++ (← inOrder generate more)

def functionDecls (r : Generators) (here : Place) (isLocal : Bool) : List NodeId → Gen (List Stmt)
  | [] => return []
  | id :: more => do
    let first ← orReport (r.functionDecl here isLocal id)
    return first ++ (← functionDecls r here isLocal more)

variable (r : Generators) (here : Place)

def block (ids : List NodeId) : Gen (List Stmt) := do
  let m := (← read).module
  let (hoisted, others) := ids.partition (isFunctionDecl m)
  let ahead := if hoisted.isEmpty then [] else others.flatMap (declarations m)
  modify fun s => { s with declared := s.declared.insertMany (ahead.map (·.1)) }
  let isLocal := hoisted.length = 1 ∧ ahead.isEmpty
  let names := (ahead.map (·.2) ++ hoisted.filterMap (functionName? m)).eraseDups
  let forward := if isLocal ∨ hoisted.isEmpty then [] else [Stmt.locals names]
  let functions ← functionDecls r here isLocal hoisted
  let rest ← inOrder (r.stmt here) others
  return forward ++ functions ++ rest

def body (id : NodeId) : Gen (List Stmt) := do
  match (← read).module.statementsOf .lua id with
  | .ok ids => block r here ids
  | .error e => throw e

def params (f : FunctionNode) (receiver : Option String) : Gen (List String) := do
  let names ← f.params.mapM declaredName
  return receiver.toList ++ names ++ if f.rest.isSome then ["..."] else []

def restDeclaration : Option NodeId → Gen (List Stmt)
  | none => return []
  | some rest => do
    let node ← node rest
    match node.kind with
    | .rest argument => return [.localValue (← declaredName argument) (.list [.varargs])]
    | _ => unsupported node "expected a RestElement"

def functionBody (f : FunctionNode) : Gen (List Stmt) := do
  let rest ← restDeclaration f.rest
  return rest ++ (← body r here.inFunction f.body)

def functionDeclaration (isLocal : Bool) (id : NodeId) : Gen (List Stmt) := do
  let node ← node id
  match node.kind with
  | .functionDecl f =>
    let name := (f.name.map nameOf).getD ("__fn" ++ toString node.id)
    let params ← params f none
    let body ← functionBody r here.deeper f
    return [.function (if isLocal then .localName name else .plain name) params body]
  | _ => unsupported node "expected a FunctionDeclaration"

def functionValue (f : FunctionNode) (receiver : Option String) : Gen Expr := do
  let params ← params f receiver
  return .function here.level params (← functionBody r here.deeper f)

/-- The name under which a function that is stored in a table takes its receiver; an arrow function keeps
the `self` around it. -/
def receiverOf : Kind → String
  | .arrow _ => "_"
  | _ => "self"

def immediately (body : Place → Gen (List Stmt)) : Gen Expr := do
  return .immediately here.level [] (← body here.deeper) []

def classParent : Option NodeId → Gen (Option Expr × List Stmt)
  | none => return (none, [])
  | some id => do
    let value ← r.expr here id
    match (← node id).kind with
    | .identifier .. => return (some value, [])
    | _ =>
      let name ← fresh "__ls_super"
      return (some (.name name), [.localValue name value])

def classTable (name : String) (parent : Option Expr) (isLocal : Bool) : List Stmt :=
  let table := Expr.name name
  let self := Expr.name "self"
  [if isLocal then .localValue name (.table []) else .assign table (.table []),
    .assign (.field table "__index") table] ++
  parent.toList.map (fun parent =>
    .call (.callName "setmetatable" [table, .table [.named "__index" parent]])) ++
  [.function (.field name "new") ["..."]
    [.localValue "self" (.callName "setmetatable" [.table [], table]),
      .call (.call (.field table "__init") [self, .varargs]),
      .ret self]]

def classConstructor (name : String) (id : NodeId) : Gen (List Stmt) := do
  let node ← node id
  match node.kind with
  | .functionExpr f =>
    let params ← params f none
    return [.function (.method name "__init") params (← functionBody r here.deeper f)]
  | _ => unsupported node "expected a FunctionExpression"

def classMethod (name : String) (id : NodeId) : Gen (List Stmt) := do
  let node ← node id
  match node.kind with
  | .method key value .method _ _ =>
    let function ← Gen.node value
    match function.kind with
    | .functionExpr f =>
      if isIdentifier key then
        let params ← params f none
        return [.function (.method name key) params (← functionBody r here.deeper f)]
      else
        let params ← params f (some "self")
        let body ← functionBody r here.deeper f
        return [.assign (.index (.name name) (.string key)) (.function here.level params body)]
    | _ => unsupported function "expected a FunctionExpression"
  | .method key _ _ _ _ =>
    report (node.unsupported .lua ("accessor `" ++ key ++ "` has no Lua equivalent"))
    return []
  | _ => unsupported node "expected a MethodDefinition"

def classField (name : String) (id : NodeId) : Gen (List Stmt) := do
  let node ← node id
  match node.kind with
  | .property key value _ =>
    let key ← propertyName key
    let value ← r.expr here value
    return [.assign (Expr.property (.name name) key) value]
  | _ => unsupported node "expected a Property"

def classStatements (c : ClassNode) (isLocal : Bool) : Gen (String × List Stmt) := do
  let name := nameOf c.name
  let (parent, before) ← classParent r here c.superClass
  let inside := { here with parent := parent }
  let constructor ← classConstructor r inside name c.constructor
  let methods ← c.methods.mapM (classMethod r inside name)
  let fields ← c.staticProperties.mapM (classField r inside name)
  return (name, before ++ classTable name parent isLocal ++ constructor ++ methods.flatten ++ fields.flatten)

end Retarget.Lua.Gen
