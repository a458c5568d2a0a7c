import Retarget.Node.Basic

/-!
# References between nodes

`Kind.references` lists the ids in the fields of a node, each with the category of nodes that may stand
there. A reference either owns its target, which makes it a child, or points across the tree.
-/

namespace Retarget

inductive Category where
  | expression
  | statement
  | assignTarget
  | binding
  | templatePart
  | objectMember
  | forInit
  | parameter
  | restElement
  | block
  | declarator
  | functionExpression
  | method
  | property
  | catchClause
  | switchCase
  | classMetadata
  | prototype
  deriving DecidableEq, Repr, Inhabited

namespace Category

def all : List Category :=
  [.expression, .statement, .assignTarget, .binding, .templatePart, .objectMember, .forInit, .parameter,
    .restElement, .block, .declarator, .functionExpression, .method, .property, .catchClause,
    .switchCase, .classMetadata, .prototype]

def admits : Category → Kind → Bool
  | expression, kind => kind.isExpression
  | statement, kind => kind.isStatement
  | assignTarget, .identifier .. | assignTarget, .member .. => true
  | binding, kind => kind.isBinding
  | templatePart, .templateElement .. => true
  | templatePart, kind => kind.isExpression
  | objectMember, .property .. | objectMember, .spread _ => true
  | forInit, .variableDecl .. => true
  | forInit, kind => kind.isExpression
  | parameter, .parameter _ => true
  | restElement, .rest _ => true
  | block, .block _ => true
  | declarator, .declarator .. => true
  | functionExpression, .functionExpr _ => true
  | method, .method .. => true
  | property, .property .. => true
  | catchClause, .catchClause .. => true
  | switchCase, .switchCase .. => true
  | classMetadata, .classMetadata _ => true
  | prototype, .prototype _ => true
  | _, _ => false

def text : Category → String
  | expression => "an expression"
  | statement => "a statement"
  | assignTarget => "an assignment target"
  | binding => "a binding declaration"
  | templatePart => "a template part"
  | objectMember => "an object member"
  | forInit => "a declaration or expression"
  | parameter => "a Parameter"
  | restElement => "a RestElement"
  | block => "a BlockStatement"
  | declarator => "a VariableDeclarator"
  | functionExpression => "a FunctionExpression"
  | method => "a MethodDefinition"
  | property => "a Property"
  | catchClause => "a CatchClause"
  | switchCase => "a SwitchCase"
  | classMetadata => "a ClassMetadata"
  | prototype => "a PrototypeReference"

end Category

structure Reference where
  field : String
  target : NodeId
  category : Category
  owned : Bool
  deriving DecidableEq, Repr, Inhabited

namespace Reference

def one (field : String) (target : NodeId) (category : Category) : List Reference :=
  [⟨field, target, category, true⟩]

def opt (field : String) (target : Option NodeId) (category : Category) : List Reference :=
  target.toList.map fun id => ⟨field, id, category, true⟩

def many (field : String) (targets : List NodeId) (category : Category) : List Reference :=
  targets.mapIdx fun i id => ⟨field ++ "[" ++ toString i ++ "]", id, category, true⟩

def items (field : String) (items : List ListItem) : List Reference :=
  items.mapIdx fun i item => ⟨field ++ "[" ++ toString i ++ "].value", item.value, .expression, true⟩

def cross (field : String) (target : Option NodeId) (category : Category) : List Reference :=
  target.toList.map fun id => ⟨field, id, category, false⟩

end Reference

open Reference (one opt many items cross)

def FunctionNode.references (f : FunctionNode) : List Reference :=
  many "params" f.params .parameter ++ opt "rest" f.rest .restElement ++ one "body" f.body .block

def ClassNode.references (c : ClassNode) : List Reference :=
  opt "superClass" c.superClass .expression ++ one "constructor" c.constructor .functionExpression ++
    many "methods" c.methods .method ++ many "staticProperties" c.staticProperties .property ++
    one "metadata" c.metadata .classMetadata ++ one "prototype" c.prototype .prototype

namespace Kind

def references : Kind → List Reference
  | number _ | string _ | boolean _ | null | undefined | templateElement .. | thisExpr | superExpr
  | parameter _ | classMetadata _ | prototype _ | empty | breakStmt | continueStmt => []
  | template parts => many "parts" parts .templatePart
  | identifier _ binding => cross "binding" binding .binding
  | binary _ left right | logical _ left right =>
    one "left" left .expression ++ one "right" right .expression
  | unary _ argument | spread argument | awaitExpr argument | throwStmt argument =>
    one "argument" argument .expression
  | update _ _ argument => one "argument" argument .assignTarget
  | assign _ target value => one "target" target .assignTarget ++ one "value" value .expression
  | conditional test consequent alternate =>
    one "test" test .expression ++ one "consequent" consequent .expression ++
      one "alternate" alternate .expression
  | call callee arguments _ | newExpr callee arguments _ =>
    one "callee" callee .expression ++ items "arguments" arguments
  | member base key _ => one "object" base .expression ++ one "property" key .expression
  | array elements _ => items "elements" elements
  | object properties => many "properties" properties .objectMember
  | property key value _ => one "key" key .expression ++ one "value" value .expression
  | sequence expressions => many "expressions" expressions .expression
  | functionExpr f | arrow f | functionDecl f => f.references
  | classExpr c | classDecl c => c.references
  | rest argument => one "argument" argument .parameter
  | variableDecl _ declarations => many "declarations" declarations .declarator
  | declarator _ init => opt "init" init .expression
  | method _ value _ _ home => one "value" value .functionExpression ++ cross "home" home .prototype
  | exprStmt expression => one "expression" expression .expression
  | block body => many "body" body .statement
  | ifStmt test consequent alternate =>
    one "test" test .expression ++ one "consequent" consequent .statement ++
      opt "alternate" alternate .statement
  | forStmt init test step body =>
    opt "init" init .forInit ++ opt "test" test .expression ++ opt "update" step .expression ++
      one "body" body .statement
  | forEach _ binding iterable body =>
    one "binding" binding .declarator ++ one "iterable" iterable .expression ++
      one "body" body .statement
  | whileStmt test body | doWhile body test =>
    one "test" test .expression ++ one "body" body .statement
  | returnStmt argument => opt "argument" argument .expression
  | tryStmt body handler finalizer =>
    one "block" body .block ++ opt "handler" handler .catchClause ++ opt "finalizer" finalizer .block
  | catchClause param body => opt "param" param .parameter ++ one "body" body .block
  | switchStmt discriminant cases =>
    one "discriminant" discriminant .expression ++ many "cases" cases .switchCase
  | switchCase test consequent =>
    opt "test" test .expression ++ many "consequent" consequent .statement

def children (kind : Kind) : List NodeId := (kind.references.filter (·.owned)).map (·.target)

end Kind

end Retarget
