import Retarget.Node.Operator
import Retarget.Node.Type
import Retarget.Source.Span

/-!
# Nodes

A program is a flat table of nodes that refer to each other by their ids. `Kind` is the closed set of what
a node can be; a `Node` adds to its kind an id, the place in the source, a type and whether it was written
there at all.
-/

namespace Retarget

abbrev NodeId := Nat

structure ListItem where
  spread : Bool
  value : NodeId
  deriving DecidableEq, Repr, Inhabited

/-- What function declarations, function expressions and arrow functions have in common. -/
structure FunctionNode where
  name : Option String
  params : List NodeId
  rest : Option NodeId
  body : NodeId
  isAsync : Bool
  deriving DecidableEq, Repr, Inhabited

/-- What class declarations and class expressions have in common. -/
structure ClassNode where
  name : String
  superClass : Option NodeId
  constructor : NodeId
  methods : List NodeId
  staticProperties : List NodeId
  metadata : NodeId
  prototype : NodeId
  deriving DecidableEq, Repr, Inhabited

structure ClassSummary where
  superClass : Option String
  derived : Bool
  instanceMethods : List String
  staticMethods : List String
  instanceFields : List String
  staticFields : List String
  deriving DecidableEq, Repr, Inhabited

inductive Kind where
  | number (value : Float)
  | string (value : String)
  | boolean (value : Bool)
  | null
  | undefined
  | template (parts : List NodeId)
  | templateElement (cooked raw : String)
  | identifier (name : String) (binding : Option NodeId)
  | thisExpr
  | superExpr
  | binary (operator : BinaryOperator) (left right : NodeId)
  | logical (operator : LogicalOperator) (left right : NodeId)
  | unary (operator : UnaryOperator) (argument : NodeId)
  | update (operator : UpdateOperator) (before : Bool) (argument : NodeId)
  | assign (operator : AssignmentOperator) (target value : NodeId)
  | conditional (test consequent alternate : NodeId)
  | call (callee : NodeId) (arguments : List ListItem) (hasSpread : Bool)
  | newExpr (callee : NodeId) (arguments : List ListItem) (hasSpread : Bool)
  | member (object property : NodeId) (computed : Bool)
  | array (elements : List ListItem) (hasSpread : Bool)
  | object (properties : List NodeId)
  | property (key value : NodeId) (computed : Bool)
  | spread (argument : NodeId)
  | sequence (expressions : List NodeId)
  | awaitExpr (argument : NodeId)
  | functionExpr (function : FunctionNode)
  | arrow (function : FunctionNode)
  | classExpr (body : ClassNode)
  | functionDecl (function : FunctionNode)
  | classDecl (body : ClassNode)
  | parameter (name : String)
  | rest (argument : NodeId)
  | variableDecl (kind : DeclarationKind) (declarations : List NodeId)
  | declarator (name : String) (init : Option NodeId)
  | method (key : String) (value : NodeId) (kind : MethodKind) (isStatic : Bool) (home : Option NodeId)
  | classMetadata (summary : ClassSummary)
  | prototype (className : String)
  | exprStmt (expression : NodeId)
  | block (body : List NodeId)
  | empty
  | ifStmt (test consequent : NodeId) (alternate : Option NodeId)
  | forStmt (init test update : Option NodeId) (body : NodeId)
  | forEach (iterate : IterationKind) (binding iterable body : NodeId)
  | whileStmt (test body : NodeId)
  | doWhile (body test : NodeId)
  | breakStmt
  | continueStmt
  | returnStmt (argument : Option NodeId)
  | throwStmt (argument : NodeId)
  | tryStmt (block : NodeId) (handler finalizer : Option NodeId)
  | catchClause (param : Option NodeId) (body : NodeId)
  | switchStmt (discriminant : NodeId) (cases : List NodeId)
  | switchCase (test : Option NodeId) (consequent : List NodeId)
  deriving DecidableEq, Repr, Inhabited

namespace Kind

def name : Kind → String
  | number _ => "NumericLiteral"
  | string _ => "StringLiteral"
  | boolean _ => "BooleanLiteral"
  | null => "NullLiteral"
  | undefined => "UndefinedLiteral"
  | template _ => "TemplateLiteral"
  | templateElement .. => "TemplateElement"
  | identifier .. => "Identifier"
  | thisExpr => "ThisExpression"
  | superExpr => "Super"
  | binary .. => "BinaryExpression"
  | logical .. => "LogicalExpression"
  | unary .. => "UnaryExpression"
  | update .. => "UpdateExpression"
  | assign .. => "AssignmentExpression"
  | conditional .. => "ConditionalExpression"
  | call .. => "CallExpression"
  | newExpr .. => "NewExpression"
  | member .. => "MemberExpression"
  | array .. => "ArrayExpression"
  | object _ => "ObjectExpression"
  | property .. => "Property"
  | spread _ => "SpreadElement"
  | sequence _ => "SequenceExpression"
  | awaitExpr _ => "AwaitExpression"
  | functionExpr _ => "FunctionExpression"
  | arrow _ => "ArrowFunctionExpression"
  | classExpr _ => "ClassExpression"
  | functionDecl _ => "FunctionDeclaration"
  | classDecl _ => "ClassDeclaration"
  | parameter _ => "Parameter"
  | rest _ => "RestElement"
  | variableDecl .. => "VariableDeclaration"
  | declarator .. => "VariableDeclarator"
  | method .. => "MethodDefinition"
  | classMetadata _ => "ClassMetadata"
  | prototype _ => "PrototypeReference"
  | exprStmt _ => "ExpressionStatement"
  | block _ => "BlockStatement"
  | empty => "EmptyStatement"
  | ifStmt .. => "IfStatement"
  | forStmt .. => "ForStatement"
  | forEach .. => "ForEachStatement"
  | whileStmt .. => "WhileStatement"
  | doWhile .. => "DoWhileStatement"
  | breakStmt => "BreakStatement"
  | continueStmt => "ContinueStatement"
  | returnStmt _ => "ReturnStatement"
  | throwStmt _ => "ThrowStatement"
  | tryStmt .. => "TryStatement"
  | catchClause .. => "CatchClause"
  | switchStmt .. => "SwitchStatement"
  | switchCase .. => "SwitchCase"

def names : List String :=
  ["NumericLiteral", "StringLiteral", "BooleanLiteral", "NullLiteral", "UndefinedLiteral",
    "TemplateLiteral", "TemplateElement", "Identifier", "ThisExpression", "Super", "BinaryExpression",
    "LogicalExpression", "UnaryExpression", "UpdateExpression", "AssignmentExpression",
    "ConditionalExpression", "CallExpression", "NewExpression", "MemberExpression", "ArrayExpression",
    "ObjectExpression", "Property", "SpreadElement", "SequenceExpression", "AwaitExpression",
    "FunctionExpression", "ArrowFunctionExpression", "ClassExpression", "FunctionDeclaration",
    "ClassDeclaration", "Parameter", "RestElement", "VariableDeclaration", "VariableDeclarator",
    "MethodDefinition", "ClassMetadata", "PrototypeReference", "ExpressionStatement", "BlockStatement",
    "EmptyStatement", "IfStatement", "ForStatement", "ForEachStatement", "WhileStatement",
    "DoWhileStatement", "BreakStatement", "ContinueStatement", "ReturnStatement", "ThrowStatement",
    "TryStatement", "CatchClause", "SwitchStatement", "SwitchCase"]

def isExpression : Kind → Bool
  | number _ | string _ | boolean _ | null | undefined | template _ | identifier .. | thisExpr | superExpr
  | binary .. | logical .. | unary .. | update .. | assign .. | conditional .. | call .. | newExpr ..
  | member .. | array .. | object _ | sequence _ | awaitExpr _ | functionExpr _ | arrow _
  | classExpr _ => true
  | _ => false

def isStatement : Kind → Bool
  | exprStmt _ | variableDecl .. | functionDecl _ | classDecl _ | block _ | empty | ifStmt .. | forStmt ..
  | forEach .. | whileStmt .. | doWhile .. | breakStmt | continueStmt | returnStmt _ | throwStmt _
  | tryStmt .. | switchStmt .. => true
  | _ => false

def isBinding : Kind → Bool
  | parameter _ | declarator .. | functionDecl _ | classDecl _ | functionExpr _ | classExpr _ => true
  | _ => false

def isLiteral : Kind → Bool
  | number _ | string _ | boolean _ | null | undefined => true
  | _ => false

def isTerminator : Kind → Bool
  | returnStmt _ | throwStmt _ | breakStmt | continueStmt => true
  | _ => false

def function? : Kind → Option FunctionNode
  | functionDecl f | functionExpr f | arrow f => some f
  | _ => none

def class? : Kind → Option ClassNode
  | classDecl c | classExpr c => some c
  | _ => none

def truthiness? : Kind → Option Bool
  | number value => some (value != 0.0 && !value.isNaN)
  | string value => some (value != "")
  | boolean value => some value
  | null | undefined => some false
  | _ => none

end Kind

structure Node where
  id : NodeId
  kind : Kind
  span : Option Span := none
  type : Option TypeDescriptor := none
  synthetic : Bool := false
  deriving DecidableEq, Repr, Inhabited

end Retarget
