import Retarget.Node.Reference

/-!
# Nodes as documents

A node is one object: its id, its kind, the fields of the kind, and then the place, the type and the
synthetic mark if there are any. `Node.ofJson?` reads back what `Node.toJson` writes.
-/

namespace Retarget

namespace Json

def id? : Json → Option NodeId := nat32?

def ids? : Json → Option (List NodeId) := list? id?

end Json

namespace ListItem

def toJson (item : ListItem) : Json := .obj [("spread", .bool item.spread), ("value", .ofNat item.value)]

def ofJson? (value : Json) : Option ListItem := do
  let fields ← value.record? ["spread", "value"] 2
  return ⟨← Json.required Json.bool? "spread" fields, ← Json.required Json.id? "value" fields⟩

end ListItem

def FunctionNode.fields (f : FunctionNode) : Json.Fields :=
  [("name", .ofOption .str f.name), ("params", .ofList .ofNat f.params),
    ("rest", .ofOption .ofNat f.rest), ("body", .ofNat f.body), ("isAsync", .bool f.isAsync)]

def FunctionNode.ofFields? (fields : Json.Fields) : Option FunctionNode := do
  return {
    name := ← Json.optional Json.string? "name" fields
    params := ← Json.required Json.ids? "params" fields
    rest := ← Json.optional Json.id? "rest" fields
    body := ← Json.required Json.id? "body" fields
    isAsync := ← Json.required Json.bool? "isAsync" fields }

def ClassNode.fields (c : ClassNode) : Json.Fields :=
  [("name", .str c.name), ("superClass", .ofOption .ofNat c.superClass),
    ("constructor", .ofNat c.constructor), ("methods", .ofList .ofNat c.methods),
    ("staticProperties", .ofList .ofNat c.staticProperties), ("metadata", .ofNat c.metadata),
    ("prototype", .ofNat c.prototype)]

def ClassNode.ofFields? (fields : Json.Fields) : Option ClassNode := do
  return {
    name := ← Json.required Json.string? "name" fields
    superClass := ← Json.optional Json.id? "superClass" fields
    constructor := ← Json.required Json.id? "constructor" fields
    methods := ← Json.required Json.ids? "methods" fields
    staticProperties := ← Json.required Json.ids? "staticProperties" fields
    metadata := ← Json.required Json.id? "metadata" fields
    prototype := ← Json.required Json.id? "prototype" fields }

def ClassSummary.fields (s : ClassSummary) : Json.Fields :=
  [("superClass", .ofOption .str s.superClass), ("derived", .bool s.derived),
    ("instanceMethods", .ofList .str s.instanceMethods), ("staticMethods", .ofList .str s.staticMethods),
    ("instanceFields", .ofList .str s.instanceFields), ("staticFields", .ofList .str s.staticFields)]

def ClassSummary.ofFields? (fields : Json.Fields) : Option ClassSummary := do
  let names := Json.list? Json.string?
  return {
    superClass := ← Json.optional Json.string? "superClass" fields
    derived := ← Json.required Json.bool? "derived" fields
    instanceMethods := ← Json.required names "instanceMethods" fields
    staticMethods := ← Json.required names "staticMethods" fields
    instanceFields := ← Json.required names "instanceFields" fields
    staticFields := ← Json.required names "staticFields" fields }

namespace Kind

def fields : Kind → Json.Fields
  | number value => [("value", .ofFloat value)]
  | string value => [("value", .str value)]
  | boolean value => [("value", .bool value)]
  | null | undefined | thisExpr | superExpr | empty | breakStmt | continueStmt => []
  | template parts => [("parts", .ofList .ofNat parts)]
  | templateElement cooked raw => [("cooked", .str cooked), ("raw", .str raw)]
  | identifier name binding => [("name", .str name), ("binding", .ofOption .ofNat binding)]
  | binary operator left right =>
    [("operator", .str operator.symbol), ("left", .ofNat left), ("right", .ofNat right)]
  | logical operator left right =>
    [("operator", .str operator.symbol), ("left", .ofNat left), ("right", .ofNat right)]
  | unary operator argument => [("operator", .str operator.symbol), ("argument", .ofNat argument)]
  | update operator before argument =>
    [("operator", .str operator.symbol), ("prefix", .bool before), ("argument", .ofNat argument)]
  | assign operator target value =>
    [("operator", .str operator.symbol), ("target", .ofNat target), ("value", .ofNat value)]
  | conditional test consequent alternate =>
    [("test", .ofNat test), ("consequent", .ofNat consequent), ("alternate", .ofNat alternate)]
  | call callee arguments hasSpread | newExpr callee arguments hasSpread =>
    [("callee", .ofNat callee), ("arguments", .ofList ListItem.toJson arguments),
      ("hasSpread", .bool hasSpread)]
  | member base key computed =>
    [("object", .ofNat base), ("property", .ofNat key), ("computed", .bool computed)]
  | array elements hasSpread =>
    [("elements", .ofList ListItem.toJson elements), ("hasSpread", .bool hasSpread)]
  | object properties => [("properties", .ofList .ofNat properties)]
  | property key value computed =>
    [("key", .ofNat key), ("value", .ofNat value), ("computed", .bool computed)]
  | spread argument | awaitExpr argument | rest argument | throwStmt argument =>
    [("argument", .ofNat argument)]
  | sequence expressions => [("expressions", .ofList .ofNat expressions)]
  | functionExpr f | arrow f | functionDecl f => f.fields
  | classExpr c | classDecl c => c.fields
  | parameter name => [("name", .str name)]
  | variableDecl kind declarations =>
    [("declarationKind", .str kind.word), ("declarations", .ofList .ofNat declarations)]
  | declarator name init => [("name", .str name), ("init", .ofOption .ofNat init)]
  | method key value kind isStatic home =>
    [("key", .str key), ("value", .ofNat value), ("methodKind", .str kind.word),
      ("isStatic", .bool isStatic), ("home", .ofOption .ofNat home)]
  | classMetadata summary => summary.fields
  | prototype className => [("className", .str className)]
  | exprStmt expression => [("expression", .ofNat expression)]
  | block body => [("body", .ofList .ofNat body)]
  | ifStmt test consequent alternate =>
    [("test", .ofNat test), ("consequent", .ofNat consequent), ("alternate", .ofOption .ofNat alternate)]
  | forStmt init test step body =>
    [("init", .ofOption .ofNat init), ("test", .ofOption .ofNat test),
      ("update", .ofOption .ofNat step), ("body", .ofNat body)]
  | forEach iterate binding iterable body =>
    [("iterate", .str iterate.word), ("binding", .ofNat binding), ("iterable", .ofNat iterable),
      ("body", .ofNat body)]
  | whileStmt test body => [("test", .ofNat test), ("body", .ofNat body)]
  | doWhile body test => [("body", .ofNat body), ("test", .ofNat test)]
  | returnStmt argument => [("argument", .ofOption .ofNat argument)]
  | tryStmt body handler finalizer =>
    [("block", .ofNat body), ("handler", .ofOption .ofNat handler),
      ("finalizer", .ofOption .ofNat finalizer)]
  | catchClause param body => [("param", .ofOption .ofNat param), ("body", .ofNat body)]
  | switchStmt discriminant cases =>
    [("discriminant", .ofNat discriminant), ("cases", .ofList .ofNat cases)]
  | switchCase test consequent =>
    [("test", .ofOption .ofNat test), ("consequent", .ofList .ofNat consequent)]

/-- Reads the fields of the kind called `name`. -/
def ofFields? (name : String) (fields : Json.Fields) : Option Kind := do
  let id (field : String) := Json.required Json.id? field fields
  let ids (field : String) := Json.required Json.ids? field fields
  let optId (field : String) := Json.optional Json.id? field fields
  let text (field : String) := Json.required Json.string? field fields
  let flag (field : String) := Json.required Json.bool? field fields
  let items (field : String) := Json.required (Json.list? ListItem.ofJson?) field fields
  match name with
  | "NumericLiteral" => return number (← Json.required Json.float? "value" fields)
  | "StringLiteral" => return string (← text "value")
  | "BooleanLiteral" => return boolean (← flag "value")
  | "NullLiteral" => return null
  | "UndefinedLiteral" => return undefined
  | "TemplateLiteral" => return template (← ids "parts")
  | "TemplateElement" => return templateElement (← text "cooked") (← text "raw")
  | "Identifier" => return identifier (← text "name") (← optId "binding")
  | "ThisExpression" => return thisExpr
  | "Super" => return superExpr
  | "BinaryExpression" =>
    let operator ← Json.required (Json.keyword? true BinaryOperator.ofSymbol?) "operator" fields
    return binary operator (← id "left") (← id "right")
  | "LogicalExpression" =>
    let operator ← Json.required (Json.keyword? true LogicalOperator.ofSymbol?) "operator" fields
    return logical operator (← id "left") (← id "right")
  | "UnaryExpression" =>
    let operator ← Json.required (Json.keyword? true UnaryOperator.ofSymbol?) "operator" fields
    return unary operator (← id "argument")
  | "UpdateExpression" =>
    let operator ← Json.required (Json.keyword? true UpdateOperator.ofSymbol?) "operator" fields
    return update operator (← flag "prefix") (← id "argument")
  | "AssignmentExpression" =>
    let operator ← Json.required (Json.keyword? true AssignmentOperator.ofSymbol?) "operator" fields
    return assign operator (← id "target") (← id "value")
  | "ConditionalExpression" => return conditional (← id "test") (← id "consequent") (← id "alternate")
  | "CallExpression" => return call (← id "callee") (← items "arguments") (← flag "hasSpread")
  | "NewExpression" => return newExpr (← id "callee") (← items "arguments") (← flag "hasSpread")
  | "MemberExpression" => return member (← id "object") (← id "property") (← flag "computed")
  | "ArrayExpression" => return array (← items "elements") (← flag "hasSpread")
  | "ObjectExpression" => return object (← ids "properties")
  | "Property" => return property (← id "key") (← id "value") (← flag "computed")
  | "SpreadElement" => return spread (← id "argument")
  | "SequenceExpression" => return sequence (← ids "expressions")
  | "AwaitExpression" => return awaitExpr (← id "argument")
  | "FunctionExpression" => return functionExpr (← FunctionNode.ofFields? fields)
  | "ArrowFunctionExpression" => return arrow (← FunctionNode.ofFields? fields)
  | "ClassExpression" => return classExpr (← ClassNode.ofFields? fields)
  | "FunctionDeclaration" => return functionDecl (← FunctionNode.ofFields? fields)
  | "ClassDeclaration" => return classDecl (← ClassNode.ofFields? fields)
  | "Parameter" => return parameter (← text "name")
  | "RestElement" => return rest (← id "argument")
  | "VariableDeclaration" =>
    let kind ← Json.required (Json.keyword? true DeclarationKind.ofWord?) "declarationKind" fields
    return variableDecl kind (← ids "declarations")
  | "VariableDeclarator" => return declarator (← text "name") (← optId "init")
  | "MethodDefinition" =>
    let kind ← Json.required (Json.keyword? true MethodKind.ofWord?) "methodKind" fields
    return method (← text "key") (← id "value") kind (← flag "isStatic") (← optId "home")
  | "ClassMetadata" => return classMetadata (← ClassSummary.ofFields? fields)
  | "PrototypeReference" => return prototype (← text "className")
  | "ExpressionStatement" => return exprStmt (← id "expression")
  | "BlockStatement" => return block (← ids "body")
  | "EmptyStatement" => return empty
  | "IfStatement" => return ifStmt (← id "test") (← id "consequent") (← optId "alternate")
  | "ForStatement" => return forStmt (← optId "init") (← optId "test") (← optId "update") (← id "body")
  | "ForEachStatement" =>
    let iterate ← Json.required (Json.keyword? true IterationKind.ofWord?) "iterate" fields
    return forEach iterate (← id "binding") (← id "iterable") (← id "body")
  | "WhileStatement" => return whileStmt (← id "test") (← id "body")
  | "DoWhileStatement" => return doWhile (← id "body") (← id "test")
  | "BreakStatement" => return breakStmt
  | "ContinueStatement" => return continueStmt
  | "ReturnStatement" => return returnStmt (← optId "argument")
  | "ThrowStatement" => return throwStmt (← id "argument")
  | "TryStatement" => return tryStmt (← id "block") (← optId "handler") (← optId "finalizer")
  | "CatchClause" => return catchClause (← optId "param") (← id "body")
  | "SwitchStatement" => return switchStmt (← id "discriminant") (← ids "cases")
  | "SwitchCase" => return switchCase (← optId "test") (← ids "consequent")
  | _ => none

/-- Reads a kind from an object that has its name under `kind`; the name may also be its number where
`indexed`. -/
def read? (indexed : Bool) (fields : Json.Fields) : Option Kind := do
  ofFields? (← Json.required (Json.tag? indexed names) "kind" fields) fields

end Kind

namespace Node

def toJson (node : Node) : Json :=
  .obj <| [("id", .ofNat node.id), ("kind", .str node.kind.name)] ++ node.kind.fields ++
    Json.optionalField "span" Span.toJson node.span ++
    Json.optionalField "type" TypeDescriptor.toJson node.type ++
    if node.synthetic then [("synthetic", .bool true)] else []

def ofJson? (value : Json) : Option Node := do
  let fields ← value.object?
  return {
    id := ← Json.required Json.id? "id" fields
    kind := ← Kind.read? true fields
    span := ← Json.optional Span.ofJson? "span" fields
    type := ← Json.optional TypeDescriptor.ofJson? "type" fields
    synthetic := ← Json.defaulted false Json.bool? "synthetic" fields }

end Node

end Retarget
