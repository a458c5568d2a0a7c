import Retarget.Node.Operator
import Retarget.Source.Span

/-!
# Programs as parsed

The syntax trees of JavaScript programs in the form of ESTree. A `Tree` is indexed by the kind of phrase it
is: an expression, a statement, a pattern, a list of these, and so on, so that every tree is well-formed and
a statement about all phrases is proved by one induction. Only what later stages look at is kept. Constructs
that are known but have no meaning here are kept by their kind alone.
-/

namespace Retarget.Syntax

structure LineColumn where
  line : Nat
  column : Nat
  deriving DecidableEq, Repr, Inhabited

structure SourceLocation where
  start : LineColumn
  stop : LineColumn
  source : Option String := none
  deriving DecidableEq, Repr, Inhabited

structure Pos where
  loc : Option SourceLocation := none
  start : Option Nat := none
  stop : Option Nat := none
  deriving DecidableEq, Repr, Inhabited

def LineColumn.oneBased (p : LineColumn) : Nat := (p.column + 1) % 0x100000000

def Pos.span? (p : Pos) (fileId : Nat) : Option Span :=
  p.loc.map fun loc =>
    { start := ⟨loc.start.line, loc.start.oneBased, p.start.getD 0⟩
      stop := ⟨loc.stop.line, loc.stop.oneBased, p.stop.getD 0⟩
      fileId := fileId }

inductive SourceType where
  | script | module
  deriving DecidableEq, Repr, Inhabited

structure Identifier where
  name : String
  pos : Pos := {}
  deriving DecidableEq, Repr, Inhabited

structure Literal where
  value : Json := .null
  raw : Option String := none
  regex : Option Json := none
  bigint : Option String := none
  pos : Pos := {}
  deriving DecidableEq, Repr, Inhabited

structure TemplateElement where
  raw : String
  cooked : Option String
  tail : Bool := false
  pos : Pos := {}
  deriving DecidableEq, Repr, Inhabited

inductive MethodRole where
  | constructor | method | getter | setter
  deriving DecidableEq, Repr, Inhabited

inductive PropertyRole where
  | init | getter | setter
  deriving DecidableEq, Repr, Inhabited

inductive UnsupportedStmt where
  | labeled | withStmt | debugger | importDecl | exportNamed | exportDefault | exportAll
  deriving DecidableEq, Repr, Inhabited

inductive UnsupportedExpr where
  | chain | yield | taggedTemplate | metaProperty | importCall | privateName
  deriving DecidableEq, Repr, Inhabited

inductive Phrase where
  | expr
  | member
  | objectMember
  | pattern
  | patternMember
  | function
  | arrowBody
  | classLike
  | classMember
  | block
  | declaration
  | declarator
  | forInit
  | forHead
  | switchCase
  | catchClause
  | stmt
  | list (item : Phrase)
  | opt (item : Phrase)
  deriving DecidableEq, Repr

inductive Tree : Phrase → Type where
  | nil : Tree (.list s)
  | cons (head : Tree s) (tail : Tree (.list s)) : Tree (.list s)
  | absent : Tree (.opt s)
  | present (item : Tree s) : Tree (.opt s)
  | identifier (id : Identifier) : Tree .expr
  | literal (lit : Literal) : Tree .expr
  | template (quasis : List TemplateElement) (expressions : Tree (.list .expr)) (pos : Pos) : Tree .expr
  | thisExpr (pos : Pos) : Tree .expr
  | superExpr (pos : Pos) : Tree .expr
  | array (elements : Tree (.list (.opt .expr))) (pos : Pos) : Tree .expr
  | object (members : Tree (.list .objectMember)) (pos : Pos) : Tree .expr
  | functionExpr (f : Tree .function) : Tree .expr
  | arrow (params : Tree (.list .pattern)) (body : Tree .arrowBody) (isAsync : Bool) (pos : Pos) :
    Tree .expr
  | classExpr (c : Tree .classLike) : Tree .expr
  | unary (operator : String) (argument : Tree .expr) (before : Bool) (pos : Pos) : Tree .expr
  | update (operator : String) (argument : Tree .expr) (before : Bool) (pos : Pos) : Tree .expr
  | binary (operator : String) (left right : Tree .expr) (pos : Pos) : Tree .expr
  | logical (operator : String) (left right : Tree .expr) (pos : Pos) : Tree .expr
  | assign (operator : String) (target : Tree .pattern) (value : Tree .expr) (pos : Pos) : Tree .expr
  | conditional (test consequent alternate : Tree .expr) (pos : Pos) : Tree .expr
  | call (callee : Tree .expr) (arguments : Tree (.list .expr)) (optional : Bool) (pos : Pos) : Tree .expr
  | newExpr (callee : Tree .expr) (arguments : Tree (.list .expr)) (optional : Bool) (pos : Pos) :
    Tree .expr
  | memberExpr (m : Tree .member) : Tree .expr
  | sequence (expressions : Tree (.list .expr)) (pos : Pos) : Tree .expr
  | awaitExpr (argument : Tree .expr) (pos : Pos) : Tree .expr
  | spread (argument : Tree .expr) (pos : Pos) : Tree .expr
  | parenthesized (expression : Tree .expr) (pos : Pos) : Tree .expr
  | unsupportedExpr (kind : UnsupportedExpr) (pos : Pos) : Tree .expr
  | member (object property : Tree .expr) (computed optional : Bool) (pos : Pos) : Tree .member
  | property (key value : Tree .expr) (role : PropertyRole) (computed method shorthand : Bool)
    (pos : Pos) : Tree .objectMember
  | spreadMember (argument : Tree .expr) (pos : Pos) : Tree .objectMember
  | idPattern (id : Identifier) : Tree .pattern
  | objectPattern (members : Tree (.list .patternMember)) (pos : Pos) : Tree .pattern
  | arrayPattern (elements : Tree (.list (.opt .pattern))) (pos : Pos) : Tree .pattern
  | restPattern (argument : Tree .pattern) (pos : Pos) : Tree .pattern
  | defaultPattern (target : Tree .pattern) (value : Tree .expr) (pos : Pos) : Tree .pattern
  | memberPattern (m : Tree .member) : Tree .pattern
  | patternProperty (key : Tree .expr) (value : Tree .pattern) (computed shorthand : Bool) (pos : Pos) :
    Tree .patternMember
  | patternRest (argument : Tree .pattern) (pos : Pos) : Tree .patternMember
  | function (id : Option Identifier) (params : Tree (.list .pattern)) (body : Tree .block)
    (isAsync generator : Bool) (pos : Pos) : Tree .function
  | arrowBlock (body : Tree .block) : Tree .arrowBody
  | arrowValue (value : Tree .expr) : Tree .arrowBody
  | classLike (id : Option Identifier) (superClass : Tree (.opt .expr)) (members : Tree (.list .classMember))
    (bodyPos pos : Pos) : Tree .classLike
  | method (key : Tree .expr) (value : Tree .function) (role : MethodRole) (computed isStatic : Bool)
    (pos : Pos) : Tree .classMember
  | field (key : Tree .expr) (value : Tree (.opt .expr)) (computed isStatic : Bool) (pos : Pos) :
    Tree .classMember
  | staticBlock (pos : Pos) : Tree .classMember
  | block (body : Tree (.list .stmt)) (pos : Pos) : Tree .block
  | declaration (kind : DeclarationKind) (declarators : Tree (.list .declarator)) (pos : Pos) :
    Tree .declaration
  | declarator (target : Tree .pattern) (init : Tree (.opt .expr)) (pos : Pos) : Tree .declarator
  | initDeclaration (d : Tree .declaration) : Tree .forInit
  | initExpr (e : Tree .expr) : Tree .forInit
  | headDeclaration (d : Tree .declaration) : Tree .forHead
  | headPattern (p : Tree .pattern) : Tree .forHead
  | switchCase (test : Tree (.opt .expr)) (consequent : Tree (.list .stmt)) (pos : Pos) :
    Tree .switchCase
  | catchClause (param : Tree (.opt .pattern)) (body : Tree .block) (pos : Pos) : Tree .catchClause
  | exprStmt (value : Tree .expr) (directive : Option String) (pos : Pos) : Tree .stmt
  | blockStmt (b : Tree .block) : Tree .stmt
  | emptyStmt (pos : Pos) : Tree .stmt
  | variableStmt (d : Tree .declaration) : Tree .stmt
  | functionStmt (f : Tree .function) : Tree .stmt
  | classStmt (c : Tree .classLike) : Tree .stmt
  | returnStmt (argument : Tree (.opt .expr)) (pos : Pos) : Tree .stmt
  | ifStmt (test : Tree .expr) (consequent : Tree .stmt) (alternate : Tree (.opt .stmt)) (pos : Pos) :
    Tree .stmt
  | forStmt (init : Tree (.opt .forInit)) (test update : Tree (.opt .expr)) (body : Tree .stmt)
    (pos : Pos) : Tree .stmt
  | forIn (left : Tree .forHead) (right : Tree .expr) (body : Tree .stmt) (pos : Pos) : Tree .stmt
  | forOf (left : Tree .forHead) (right : Tree .expr) (body : Tree .stmt) (isAwait : Bool) (pos : Pos) :
    Tree .stmt
  | whileStmt (test : Tree .expr) (body : Tree .stmt) (pos : Pos) : Tree .stmt
  | doWhile (test : Tree .expr) (body : Tree .stmt) (pos : Pos) : Tree .stmt
  | breakStmt (label : Option Identifier) (pos : Pos) : Tree .stmt
  | continueStmt (label : Option Identifier) (pos : Pos) : Tree .stmt
  | throwStmt (argument : Tree .expr) (pos : Pos) : Tree .stmt
  | tryStmt (body : Tree .block) (handler : Tree (.opt .catchClause)) (finalizer : Tree (.opt .block))
    (pos : Pos) : Tree .stmt
  | switchStmt (discriminant : Tree .expr) (cases : Tree (.list .switchCase)) (pos : Pos) : Tree .stmt
  | unsupportedStmt (kind : UnsupportedStmt) (pos : Pos) : Tree .stmt

abbrev Expr := Tree .expr

abbrev Pattern := Tree .pattern

abbrev Stmt := Tree .stmt

abbrev Block := Tree .block

structure Program where
  body : List Stmt
  sourceType : SourceType := .script
  pos : Pos := {}

namespace Tree

def Items : Phrase → Type
  | .list s => List (Tree s)
  | _ => Unit

def items : (p : Phrase) → Tree p → Items p
  | .list _, nil => []
  | .list s, cons head tail => head :: items (.list s) tail
  | .expr, _ | .member, _ | .objectMember, _ | .pattern, _ | .patternMember, _ | .function, _
  | .arrowBody, _ | .classLike, _ | .classMember, _ | .block, _ | .declaration, _ | .declarator, _
  | .forInit, _ | .forHead, _ | .switchCase, _ | .catchClause, _ | .stmt, _ | .opt _, _ => ()

def toList (list : Tree (.list s)) : List (Tree s) := items _ list

def ofList : List (Tree s) → Tree (.list s)
  | [] => nil
  | head :: tail => cons head (ofList tail)

def toOption : Tree (.opt s) → Option (Tree s)
  | absent => none
  | present item => some item

def ofOption : Option (Tree s) → Tree (.opt s)
  | none => absent
  | some item => present item

@[simp]
theorem toList_nil : (nil : Tree (.list s)).toList = [] := rfl

@[simp]
theorem toList_cons (head : Tree s) (tail : Tree (.list s)) : (cons head tail).toList = head :: tail.toList := rfl

@[simp]
theorem toList_ofList (items : List (Tree s)) : (ofList items).toList = items := by
  induction items with
  | nil => rfl
  | cons head tail ih => rw [ofList, toList_cons, ih]

def pos : Tree s → Pos
  | nil | cons .. | absent | present _ => {}
  | identifier id | idPattern id => id.pos
  | literal lit => lit.pos
  | functionExpr f | functionStmt f => f.pos
  | classExpr c | classStmt c => c.pos
  | memberExpr m | memberPattern m => m.pos
  | arrowBlock body | blockStmt body => body.pos
  | arrowValue value | initExpr value => value.pos
  | initDeclaration d | headDeclaration d | variableStmt d => d.pos
  | headPattern p => p.pos
  | template _ _ pos | thisExpr pos | superExpr pos | array _ pos | object _ pos | arrow _ _ _ pos
  | unary _ _ _ pos | update _ _ _ pos | binary _ _ _ pos | logical _ _ _ pos | assign _ _ _ pos
  | conditional _ _ _ pos | call _ _ _ pos | newExpr _ _ _ pos | sequence _ pos | awaitExpr _ pos
  | spread _ pos | parenthesized _ pos | unsupportedExpr _ pos | member _ _ _ _ pos
  | property _ _ _ _ _ _ pos | spreadMember _ pos | objectPattern _ pos | arrayPattern _ pos
  | restPattern _ pos | defaultPattern _ _ pos | patternProperty _ _ _ _ pos | patternRest _ pos
  | function _ _ _ _ _ pos | classLike _ _ _ _ pos | method _ _ _ _ _ pos | field _ _ _ _ pos
  | staticBlock pos | block _ pos | declaration _ _ pos | declarator _ _ pos | switchCase _ _ pos
  | catchClause _ _ pos | exprStmt _ _ pos | emptyStmt pos | returnStmt _ pos | ifStmt _ _ _ pos
  | forStmt _ _ _ _ pos | forIn _ _ _ pos | forOf _ _ _ _ pos | whileStmt _ _ pos | doWhile _ _ pos
  | breakStmt _ pos | continueStmt _ pos | throwStmt _ pos | tryStmt _ _ _ pos | switchStmt _ _ pos
  | unsupportedStmt _ pos => pos

end Tree

def UnsupportedStmt.typeName : UnsupportedStmt → String
  | labeled => "LabeledStatement"
  | withStmt => "WithStatement"
  | debugger => "DebuggerStatement"
  | importDecl => "ImportDeclaration"
  | exportNamed => "ExportNamedDeclaration"
  | exportDefault => "ExportDefaultDeclaration"
  | exportAll => "ExportAllDeclaration"

def UnsupportedExpr.typeName : UnsupportedExpr → String
  | chain => "ChainExpression"
  | yield => "YieldExpression"
  | taggedTemplate => "TaggedTemplateExpression"
  | metaProperty => "MetaProperty"
  | importCall => "ImportExpression"
  | privateName => "PrivateIdentifier"

def exprTypeName : Expr → String
  | .identifier _ => "Identifier"
  | .literal _ => "Literal"
  | .template .. => "TemplateLiteral"
  | .thisExpr _ => "ThisExpression"
  | .superExpr _ => "Super"
  | .array .. => "ArrayExpression"
  | .object .. => "ObjectExpression"
  | .functionExpr _ => "FunctionExpression"
  | .arrow .. => "ArrowFunctionExpression"
  | .classExpr _ => "ClassExpression"
  | .unary .. => "UnaryExpression"
  | .update .. => "UpdateExpression"
  | .binary .. => "BinaryExpression"
  | .logical .. => "LogicalExpression"
  | .assign .. => "AssignmentExpression"
  | .conditional .. => "ConditionalExpression"
  | .call .. => "CallExpression"
  | .newExpr .. => "NewExpression"
  | .memberExpr _ => "MemberExpression"
  | .sequence .. => "SequenceExpression"
  | .awaitExpr .. => "AwaitExpression"
  | .spread .. => "SpreadElement"
  | .parenthesized .. => "ParenthesizedExpression"
  | .unsupportedExpr kind _ => kind.typeName

def patternTypeName : Pattern → String
  | .idPattern _ => "Identifier"
  | .objectPattern .. => "ObjectPattern"
  | .arrayPattern .. => "ArrayPattern"
  | .restPattern .. => "RestElement"
  | .defaultPattern .. => "AssignmentPattern"
  | .memberPattern _ => "MemberExpression"

def stmtTypeName : Stmt → String
  | .exprStmt .. => "ExpressionStatement"
  | .blockStmt _ => "BlockStatement"
  | .emptyStmt _ => "EmptyStatement"
  | .variableStmt _ => "VariableDeclaration"
  | .functionStmt _ => "FunctionDeclaration"
  | .classStmt _ => "ClassDeclaration"
  | .returnStmt .. => "ReturnStatement"
  | .ifStmt .. => "IfStatement"
  | .forStmt .. => "ForStatement"
  | .forIn .. => "ForInStatement"
  | .forOf .. => "ForOfStatement"
  | .whileStmt .. => "WhileStatement"
  | .doWhile .. => "DoWhileStatement"
  | .breakStmt .. => "BreakStatement"
  | .continueStmt .. => "ContinueStatement"
  | .throwStmt .. => "ThrowStatement"
  | .tryStmt .. => "TryStatement"
  | .switchStmt .. => "SwitchStatement"
  | .unsupportedStmt kind _ => kind.typeName

end Retarget.Syntax
