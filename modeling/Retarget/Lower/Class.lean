import Retarget.Lower.Function

/-!
# Classes

A class becomes a constructor function, its methods, its static fields and a summary of their names. A class
without a constructor gets one; in a derived class it passes all arguments on to the parent.
-/

namespace Retarget

open Syntax

structure MethodSource where
  key : Expr
  params : List Pattern
  body : Block
  isAsync : Bool
  generator : Bool
  functionPos : Pos
  role : MethodRole
  computed : Bool
  isStatic : Bool
  pos : Pos

structure ClassMembers where
  constructor : Option MethodSource := none
  methods : List MethodSource := []
  fields : List FieldInit := []
  staticFields : List FieldInit := []

def methodKind : MethodRole → MethodKind
  | .getter => .getter
  | .setter => .setter
  | .constructor | .method => .method

namespace LowerM

def classMembers : List (Tree .classMember) → LowerM ClassMembers
  | [] => return {}
  | .method key (.function _ params body isAsync generator functionPos) role computed isStatic pos ::
      more => do
    let others ← classMembers more
    let method := ⟨key, params.toList, body, isAsync, generator, functionPos, role, computed, isStatic, pos⟩
    if role = .constructor then
      return { others with constructor := others.constructor.or (some method) }
    return { others with methods := method :: others.methods }
  | .field key value computed isStatic pos :: more => do
    let others ← classMembers more
    let field := ⟨key, value.toOption, computed, pos⟩
    if isStatic then return { others with staticFields := field :: others.staticFields }
    return { others with fields := field :: others.fields }
  | .staticBlock pos :: _ => unhandled "StaticBlock" pos

variable (r : Lowerers) (name : String)

def methodFunction (m : MethodSource) (constructor : ConstructorFields := {}) : LowerM FunctionParts := do
  if m.generator then unhandled "GeneratorFunction" m.pos
  lowerFunction r m.params (.block m.body) m.isAsync m.functionPos constructor

/-- The parameter that collects all arguments and the call that passes them on to the constructor of the
parent, in a derived class. -/
def forwardArguments (pos : Pos) : (derived : Bool) → LowerM (Option NodeId × List NodeId)
  | false => return (none, [])
  | true => do
    let args ← synthetic (.parameter "args") pos
    bindName "args" args
    let rest ← synthetic (.rest args) pos
    let callee ← synthetic .superExpr pos
    let forwarded ← syntheticIdent "args" args pos
    let call ← synthetic (.call callee [⟨true, forwarded⟩] true) pos
    let stmt ← synthetic (.exprStmt call) pos
    return (some rest, [stmt])

def synthesizedConstructor (derived : Bool) (fields : List FieldInit) (pos : Pos) : LowerM NodeId := do
  let (rest, body) ← inFunction false do
    let (rest, forwarding) ← forwardArguments pos derived
    let inits ← fieldInitializers r fields
    let temps ← takePending [] pos
    let body ← synthetic (.block (temps.toList ++ forwarding ++ inits)) pos
    pure (rest, body)
  synthetic (.functionExpr ⟨some name, [], rest, body, false⟩) pos

def classConstructor (derived : Bool) (members : ClassMembers) (pos : Pos) : LowerM NodeId := do
  match members.constructor with
  | some m =>
    let parts ← methodFunction r m ⟨members.fields, derived⟩
    typed (.functionExpr (parts.toNode (some name) m.isAsync)) m.pos (some parts.type)
  | none => synthesizedConstructor r name derived members.fields pos

def classMethod (prototype : NodeId) (m : MethodSource) : LowerM (String × NodeId) := do
  let key ← memberName m.key m.computed m.pos
  let parts ← methodFunction r m
  let value ← typed (.functionExpr (parts.toNode (some key) m.isAsync)) m.functionPos (some parts.type)
  let home := if m.isStatic then none else some prototype
  return (key, ← node (.method key value (methodKind m.role) m.isStatic home) m.pos)

def staticField (field : FieldInit) : LowerM (String × NodeId) := do
  let name ← memberName field.key field.computed field.pos
  let key ← synthetic (.string name) field.key.pos
  let value ← fieldValue r name field.value field.pos
  return (name, ← node (.property key value false) field.pos)

def parentName? : Option Expr → Option String
  | some (.identifier id) => some id.name
  | _ => none

def lowerClass : Tree .classLike → LowerM ClassNode
  | .classLike _ superClass members _ pos => do
    let parent ← superClass.toOption.mapM (r.expr none)
    let derived := parent.isSome
    let prototype ← synthetic (.prototype name) pos
    let members ← classMembers members.toList
    let fieldNames ← members.fields.mapM fun field => memberName field.key field.computed field.pos
    let constructor ← classConstructor r name derived members pos
    let methods ← members.methods.mapM (classMethod r prototype)
    let named := members.methods.zip methods
    let staticFields ← members.staticFields.mapM (staticField r)
    let metadata ← synthetic (.classMetadata {
      superClass := parentName? superClass.toOption
      derived := derived
      instanceMethods := (named.filter (!·.1.isStatic)).map (·.2.1)
      staticMethods := (named.filter (·.1.isStatic)).map (·.2.1)
      instanceFields := fieldNames
      staticFields := staticFields.map (·.1) }) pos
    return {
      name := name
      superClass := parent
      constructor := constructor
      methods := methods.map (·.2)
      staticProperties := staticFields.map (·.2)
      metadata := metadata
      prototype := prototype }

def classDeclaration (c : Tree .classLike) : LowerM NodeId := do
  match c with
  | .classLike none _ _ _ pos => malformed "ClassDeclaration" "class declaration without a name" pos
  | .classLike (some id) _ _ _ pos =>
    let reserved ← reserved? id.name
    let body ← lowerClass r id.name c
    match reserved with
    | some reserved =>
      fill reserved (.classDecl body) pos
      return reserved
    | none =>
      let created ← node (.classDecl body) pos
      bindName id.name created
      return created

def classExpression (hint : Option String) (c : Tree .classLike) : LowerM NodeId := do
  match c with
  | .classLike none _ _ _ pos =>
    let name ← match hint with
      | some name => pure name
      | none => freshName "Class"
    node (.classExpr (← lowerClass r name c)) pos
  | .classLike (some id) _ _ _ pos =>
    let self ← reserve
    let body ← inScope do
      bindName id.name self
      lowerClass r id.name c
    fill self (.classExpr body) pos
    return self

end LowerM

end Retarget
