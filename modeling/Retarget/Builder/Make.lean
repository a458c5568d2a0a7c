import Retarget.Builder.Basic

/-!
# Making nodes

Constructors of the builder for the common kinds of nodes. Literals get their type, and the fields that
follow from others are filled in.
-/

namespace Retarget

/-- What can be made without a kind of node at hand. -/
inductive Making where
  | number (value : Float)
  | string (value : String)
  | boolean (value : Bool)
  | null
  | undefined
  | identifier (name : String) (binding : Option NodeId)
  | parameter (name : String)
  | binary (operator : BinaryOperator) (left right : NodeId)
  | logical (operator : LogicalOperator) (left right : NodeId)
  | unary (operator : UnaryOperator) (argument : NodeId)
  | assignment (operator : AssignmentOperator) (target value : NodeId)
  | call (callee : NodeId) (arguments : List ListItem)
  | member (object property : NodeId) (computed : Bool)
  | array (elements : List ListItem)
  | expressionStatement (expression : NodeId)
  | returnStatement (argument : Option NodeId)
  | block (body : List NodeId)
  | ifStatement (test consequent : NodeId) (alternate : Option NodeId)
  | declarator (name : String) (init : Option NodeId)
  | declaration (kind : DeclarationKind) (declarations : List NodeId)
  | functionDeclaration (name : String) (params : List NodeId) (rest : Option NodeId) (body : NodeId)
      (isAsync : Bool)
  | template (parts : List NodeId)

namespace Making

def kind : Making → Kind
  | number value => .number value
  | string value => .string value
  | boolean value => .boolean value
  | null => .null
  | undefined => .undefined
  | identifier name binding => .identifier name binding
  | parameter name => .parameter name
  | binary operator left right => .binary operator left right
  | logical operator left right => .logical operator left right
  | unary operator argument => .unary operator argument
  | assignment operator target value => .assign operator target value
  | call callee arguments => .call callee arguments (arguments.any (·.spread))
  | member object property computed => .member object property computed
  | array elements => .array elements (elements.any (·.spread))
  | expressionStatement expression => .exprStmt expression
  | returnStatement argument => .returnStmt argument
  | block body => .block body
  | ifStatement test consequent alternate => .ifStmt test consequent alternate
  | declarator name init => .declarator name init
  | declaration kind declarations => .variableDecl kind declarations
  | functionDeclaration name params rest body isAsync => .functionDecl ⟨some name, params, rest, body, isAsync⟩
  | template parts => .template parts

def type : Making → Option TypeDescriptor
  | number _ => some .number
  | string _ | template _ => some .string
  | boolean _ => some .boolean
  | _ => none

/-- A declaration has to declare something. -/
def isVoid : Making → Bool
  | declaration _ declarations => declarations.isEmpty
  | _ => false

end Making

def BuildM.make (making : Making) : BuildM NodeId := do
  if making.isVoid then throw (.invalidNode "VariableDeclaration" "at least one declarator is required")
  create making.kind { type := making.type }

namespace Builder

abbrev Made := Except BuilderError (NodeId × Builder)

variable (b : Builder) (name : String)

def make (making : Making) : Made := b.perform (BuildM.make making)

def number (value : Float) : Made := b.make (.number value)

def string (value : String) : Made := b.make (.string value)

def boolean (value : Bool) : Made := b.make (.boolean value)

def null : Made := b.make .null

def undefined : Made := b.make .undefined

def identifier (binding : Option NodeId) : Made := b.make (.identifier name binding)

def parameter : Made := b.make (.parameter name)

def binary (operator : BinaryOperator) (left right : NodeId) : Made := b.make (.binary operator left right)

def logical (operator : LogicalOperator) (left right : NodeId) : Made := b.make (.logical operator left right)

def unary (operator : UnaryOperator) (argument : NodeId) : Made := b.make (.unary operator argument)

def assignment (operator : AssignmentOperator) (target value : NodeId) : Made :=
  b.make (.assignment operator target value)

def call (callee : NodeId) (arguments : List ListItem) : Made := b.make (.call callee arguments)

def member (object property : NodeId) (computed : Bool) : Made := b.make (.member object property computed)

def array (elements : List ListItem) : Made := b.make (.array elements)

def expressionStatement (expression : NodeId) : Made := b.make (.expressionStatement expression)

def returnStatement (argument : Option NodeId) : Made := b.make (.returnStatement argument)

def block (body : List NodeId) : Made := b.make (.block body)

def ifStatement (test consequent : NodeId) (alternate : Option NodeId) : Made :=
  b.make (.ifStatement test consequent alternate)

def declarator (init : Option NodeId) : Made := b.make (.declarator name init)

def declaration (kind : DeclarationKind) (declarations : List NodeId) : Made :=
  b.make (.declaration kind declarations)

def functionDeclaration (params : List NodeId) (rest : Option NodeId) (body : NodeId) (isAsync : Bool) : Made :=
  b.make (.functionDeclaration name params rest body isAsync)

def template (parts : List NodeId) : Made := b.make (.template parts)

end Builder

end Retarget
