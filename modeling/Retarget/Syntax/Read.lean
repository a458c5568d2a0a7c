import Retarget.Json.Parse
import Retarget.Syntax.Write

/-!
# Reading programs

`Program.ofJson` reads a program in the form of ESTree. The reader of a phrase is made from the readers of
the phrases inside it; `readers` ties them for documents of a given depth.

A phrase of several types names its type, or, when it stands inside another such phrase, gives the number
of the type. What stands in the head of a loop or as the body of an arrow function is read by itself again
and has to name its type.
-/

namespace Retarget.Syntax

def LineColumn.ofJson? (value : Json) : Option LineColumn := do
  let fields ← value.record? ["line", "column"] 2
  return ⟨← Json.required Json.nat32? "line" fields, ← Json.required Json.nat32? "column" fields⟩

def SourceLocation.ofJson? (value : Json) : Option SourceLocation := do
  let fields ← value.record? ["start", "end", "source"] 2
  return {
    start := ← Json.required LineColumn.ofJson? "start" fields
    stop := ← Json.required LineColumn.ofJson? "end" fields
    source := ← Json.optional Json.string? "source" fields }

def Pos.ofFields? (fields : Json.Fields) : Option Pos := do
  return {
    loc := ← Json.optional SourceLocation.ofJson? "loc" fields
    start := ← Json.optional Json.nat64? "start" fields
    stop := ← Json.optional Json.nat64? "end" fields }

def Identifier.ofFields? (fields : Json.Fields) : Option Identifier := do
  return ⟨← Json.required Json.string? "name" fields, ← Pos.ofFields? fields⟩

def Identifier.ofJson? (value : Json) : Option Identifier := do ofFields? (← value.object?)

def Literal.ofFields? (fields : Json.Fields) : Option Literal := do
  return {
    value := ← Json.defaulted .null some "value" fields
    raw := ← Json.optional Json.string? "raw" fields
    regex := ← Json.optional some "regex" fields
    bigint := ← Json.optional Json.string? "bigint" fields
    pos := ← Pos.ofFields? fields }

def TemplateElement.ofJson? (value : Json) : Option TemplateElement := do
  let fields ← value.object?
  let texts ← Json.required (Json.record? ["raw", "cooked"] 1) "value" fields
  return {
    raw := ← Json.required Json.string? "raw" texts
    cooked := ← Json.optional Json.string? "cooked" texts
    tail := ← Json.defaulted false Json.bool? "tail" fields
    pos := ← Pos.ofFields? fields }

def SourceType.ofWord? : String → Option SourceType
  | "script" => some .script
  | "module" => some .module
  | _ => none

def MethodRole.ofWord? : String → Option MethodRole
  | "constructor" => some .constructor
  | "method" => some .method
  | "get" => some .getter
  | "set" => some .setter
  | _ => none

def PropertyRole.ofWord? : String → Option PropertyRole
  | "init" => some .init
  | "get" => some .getter
  | "set" => some .setter
  | _ => none

/-- A reader of a phrase; whether its type may be given by number is said first. -/
abbrev Reader (s : Phrase) := (indexed : Bool) → Json → Option (Tree s)

structure Readers where
  expr : Reader .expr
  pattern : Reader .pattern
  stmt : Reader .stmt

def listOf (read : Json → Option (Tree s)) (value : Json) : Option (Tree (.list s)) :=
  (Json.list? read value).map Tree.ofList

/-- Reads a phrase or `null`. -/
def optOf (read : Json → Option (Tree s)) (value : Json) : Option (Tree (.opt s)) :=
  (Json.nullable? read value).map Tree.ofOption

/-- Reads a field that may be missing or `null`. -/
def optField (read : Json → Option (Tree s)) (name : String) (fields : Json.Fields) : Option (Tree (.opt s)) :=
  (Json.optional read name fields).map Tree.ofOption

namespace Readers

variable (r : Readers) (indexed : Bool)

def blockFields (fields : Json.Fields) : Option Block := do
  return .block (← Json.required (listOf (r.stmt indexed)) "body" fields) (← Pos.ofFields? fields)

def block (value : Json) : Option Block := do r.blockFields indexed (← value.object?)

def declarator (value : Json) : Option (Tree .declarator) := do
  let fields ← value.object?
  return .declarator (← Json.required (r.pattern indexed) "id" fields)
    (← optField (r.expr indexed) "init" fields) (← Pos.ofFields? fields)

def declaration (fields : Json.Fields) : Option (Tree .declaration) := do
  return .declaration (← Json.required (Json.keyword? indexed DeclarationKind.ofWord?) "kind" fields)
    (← Json.required (listOf (r.declarator indexed)) "declarations" fields) (← Pos.ofFields? fields)

def member (fields : Json.Fields) : Option (Tree .member) := do
  return .member (← Json.required (r.expr indexed) "object" fields)
    (← Json.required (r.expr indexed) "property" fields)
    (← Json.defaulted false Json.bool? "computed" fields)
    (← Json.defaulted false Json.bool? "optional" fields) (← Pos.ofFields? fields)

def function (fields : Json.Fields) : Option (Tree .function) := do
  return .function (← Json.optional Identifier.ofJson? "id" fields)
    (← Json.required (listOf (r.pattern indexed)) "params" fields)
    (← Json.required (r.block indexed) "body" fields)
    (← Json.defaulted false Json.bool? "async" fields)
    (← Json.defaulted false Json.bool? "generator" fields) (← Pos.ofFields? fields)

def arrowBody (value : Json) : Option (Tree .arrowBody) :=
  if value.get? "type" = some (.str "BlockStatement") then (r.block false value).map .arrowBlock
  else (r.expr false value).map .arrowValue

def forInit (value : Json) : Option (Tree .forInit) := do
  if value.get? "type" = some (.str "VariableDeclaration") then
    return .initDeclaration (← r.declaration false (← value.object?))
  else
    return .initExpr (← r.expr false value)

def forHead (value : Json) : Option (Tree .forHead) := do
  if value.get? "type" = some (.str "VariableDeclaration") then
    return .headDeclaration (← r.declaration false (← value.object?))
  else
    return .headPattern (← r.pattern false value)

def classMember (value : Json) : Option (Tree .classMember) := do
  let fields ← value.object?
  let shapes := ["MethodDefinition", "PropertyDefinition", "StaticBlock"]
  let pos ← Pos.ofFields? fields
  match ← Json.required (Json.tag? indexed shapes) "type" fields with
  | "MethodDefinition" =>
    let value ← Json.required Json.object? "value" fields
    return .method (← Json.required (r.expr true) "key" fields) (← r.function true value)
      (← Json.required (Json.keyword? true MethodRole.ofWord?) "kind" fields)
      (← Json.defaulted false Json.bool? "computed" fields)
      (← Json.defaulted false Json.bool? "static" fields) pos
  | "PropertyDefinition" =>
    return .field (← Json.required (r.expr true) "key" fields) (← optField (r.expr true) "value" fields)
      (← Json.defaulted false Json.bool? "computed" fields)
      (← Json.defaulted false Json.bool? "static" fields) pos
  | _ => return .staticBlock pos

def classLike (fields : Json.Fields) : Option (Tree .classLike) := do
  let body ← Json.required Json.object? "body" fields
  return .classLike (← Json.optional Identifier.ofJson? "id" fields)
    (← optField (r.expr indexed) "superClass" fields)
    (← Json.required (listOf (r.classMember indexed)) "body" body) (← Pos.ofFields? body)
    (← Pos.ofFields? fields)

def objectMember (value : Json) : Option (Tree .objectMember) := do
  let fields ← value.object?
  let pos ← Pos.ofFields? fields
  match ← Json.required (Json.tag? indexed ["Property", "SpreadElement"]) "type" fields with
  | "Property" =>
    return .property (← Json.required (r.expr true) "key" fields)
      (← Json.required (r.expr true) "value" fields)
      (← Json.defaulted .init (Json.keyword? true PropertyRole.ofWord?) "kind" fields)
      (← Json.defaulted false Json.bool? "computed" fields)
      (← Json.defaulted false Json.bool? "method" fields)
      (← Json.defaulted false Json.bool? "shorthand" fields) pos
  | _ => return .spreadMember (← Json.required (r.expr true) "argument" fields) pos

def patternMember (value : Json) : Option (Tree .patternMember) := do
  let fields ← value.object?
  let pos ← Pos.ofFields? fields
  match ← Json.required (Json.tag? indexed ["Property", "RestElement"]) "type" fields with
  | "Property" =>
    return .patternProperty (← Json.required (r.expr true) "key" fields)
      (← Json.required (r.pattern true) "value" fields)
      (← Json.defaulted false Json.bool? "computed" fields)
      (← Json.defaulted false Json.bool? "shorthand" fields) pos
  | _ => return .patternRest (← Json.required (r.pattern true) "argument" fields) pos

def switchCase (value : Json) : Option (Tree .switchCase) := do
  let fields ← value.object?
  return .switchCase (← optField (r.expr indexed) "test" fields)
    (← Json.required (listOf (r.stmt indexed)) "consequent" fields) (← Pos.ofFields? fields)

def catchClause (value : Json) : Option (Tree .catchClause) := do
  let fields ← value.object?
  return .catchClause (← optField (r.pattern indexed) "param" fields)
    (← Json.required (r.block indexed) "body" fields) (← Pos.ofFields? fields)

def exprTypes : List String :=
  ["Identifier", "Literal", "TemplateLiteral", "ThisExpression", "Super", "ArrayExpression",
    "ObjectExpression", "FunctionExpression", "ArrowFunctionExpression", "ClassExpression",
    "UnaryExpression", "UpdateExpression", "BinaryExpression", "LogicalExpression",
    "AssignmentExpression", "ConditionalExpression", "CallExpression", "NewExpression",
    "MemberExpression", "SequenceExpression", "AwaitExpression", "SpreadElement",
    "ParenthesizedExpression", "ChainExpression", "YieldExpression", "TaggedTemplateExpression",
    "MetaProperty", "ImportExpression", "PrivateIdentifier"]

def patternTypes : List String :=
  ["Identifier", "ObjectPattern", "ArrayPattern", "RestElement", "AssignmentPattern", "MemberExpression"]

def stmtTypes : List String :=
  ["ExpressionStatement", "BlockStatement", "EmptyStatement", "VariableDeclaration",
    "FunctionDeclaration", "ClassDeclaration", "ReturnStatement", "IfStatement", "ForStatement",
    "ForInStatement", "ForOfStatement", "WhileStatement", "DoWhileStatement", "BreakStatement",
    "ContinueStatement", "ThrowStatement", "TryStatement", "SwitchStatement", "LabeledStatement",
    "WithStatement", "DebuggerStatement", "ImportDeclaration", "ExportNamedDeclaration",
    "ExportDefaultDeclaration", "ExportAllDeclaration"]

/-- Reads an expression whose parts are read by `r`. -/
def readExpr : Reader .expr := fun indexed value => do
  let fields ← value.object?
  let expr (name : String) := Json.required (r.expr true) name fields
  let exprs (name : String) := Json.required (listOf (r.expr true)) name fields
  let operator := Json.required Json.string? "operator" fields
  let type ← Json.required (Json.tag? indexed exprTypes) "type" fields
  let pos ← Pos.ofFields? fields
  match type with
  | "Identifier" => return .identifier (← Identifier.ofFields? fields)
  | "Literal" => return .literal (← Literal.ofFields? fields)
  | "TemplateLiteral" =>
    return .template (← Json.required (Json.list? TemplateElement.ofJson?) "quasis" fields)
      (← exprs "expressions") pos
  | "ThisExpression" => return .thisExpr pos
  | "Super" => return .superExpr pos
  | "ArrayExpression" =>
    return .array (← Json.required (listOf (optOf (r.expr true))) "elements" fields) pos
  | "ObjectExpression" =>
    return .object (← Json.required (listOf (r.objectMember true)) "properties" fields) pos
  | "FunctionExpression" => return .functionExpr (← r.function true fields)
  | "ArrowFunctionExpression" =>
    return .arrow (← Json.required (listOf (r.pattern true)) "params" fields)
      (← Json.required r.arrowBody "body" fields) (← Json.defaulted false Json.bool? "async" fields) pos
  | "ClassExpression" => return .classExpr (← r.classLike true fields)
  | "UnaryExpression" =>
    return .unary (← operator) (← expr "argument") (← Json.defaulted true Json.bool? "prefix" fields) pos
  | "UpdateExpression" =>
    return .update (← operator) (← expr "argument") (← Json.required Json.bool? "prefix" fields) pos
  | "BinaryExpression" => return .binary (← operator) (← expr "left") (← expr "right") pos
  | "LogicalExpression" => return .logical (← operator) (← expr "left") (← expr "right") pos
  | "AssignmentExpression" =>
    return .assign (← operator) (← Json.required (r.pattern true) "left" fields) (← expr "right") pos
  | "ConditionalExpression" =>
    return .conditional (← expr "test") (← expr "consequent") (← expr "alternate") pos
  | "CallExpression" =>
    return .call (← expr "callee") (← exprs "arguments")
      (← Json.defaulted false Json.bool? "optional" fields) pos
  | "NewExpression" =>
    return .newExpr (← expr "callee") (← exprs "arguments")
      (← Json.defaulted false Json.bool? "optional" fields) pos
  | "MemberExpression" => return .memberExpr (← r.member true fields)
  | "SequenceExpression" => return .sequence (← exprs "expressions") pos
  | "AwaitExpression" => return .awaitExpr (← expr "argument") pos
  | "SpreadElement" => return .spread (← expr "argument") pos
  | "ParenthesizedExpression" => return .parenthesized (← expr "expression") pos
  | "ChainExpression" => return .unsupportedExpr .chain pos
  | "YieldExpression" => return .unsupportedExpr .yield pos
  | "TaggedTemplateExpression" => return .unsupportedExpr .taggedTemplate pos
  | "MetaProperty" => return .unsupportedExpr .metaProperty pos
  | "ImportExpression" => return .unsupportedExpr .importCall pos
  | _ => return .unsupportedExpr .privateName pos

/-- Reads a pattern whose parts are read by `r`. -/
def readPattern : Reader .pattern := fun indexed value => do
  let fields ← value.object?
  let type ← Json.required (Json.tag? indexed patternTypes) "type" fields
  let pos ← Pos.ofFields? fields
  match type with
  | "Identifier" => return .idPattern (← Identifier.ofFields? fields)
  | "ObjectPattern" =>
    return .objectPattern (← Json.required (listOf (r.patternMember true)) "properties" fields) pos
  | "ArrayPattern" =>
    return .arrayPattern (← Json.required (listOf (optOf (r.pattern true))) "elements" fields) pos
  | "RestElement" => return .restPattern (← Json.required (r.pattern true) "argument" fields) pos
  | "AssignmentPattern" =>
    return .defaultPattern (← Json.required (r.pattern true) "left" fields)
      (← Json.required (r.expr true) "right" fields) pos
  | _ => return .memberPattern (← r.member true fields)

/-- Reads a statement whose parts are read by `r`. -/
def readStmt : Reader .stmt := fun indexed value => do
  let fields ← value.object?
  let expr (name : String) := Json.required (r.expr true) name fields
  let optExpr (name : String) := optField (r.expr true) name fields
  let stmt (name : String) := Json.required (r.stmt true) name fields
  let label := Json.optional Identifier.ofJson? "label" fields
  let type ← Json.required (Json.tag? indexed stmtTypes) "type" fields
  let pos ← Pos.ofFields? fields
  match type with
  | "ExpressionStatement" =>
    return .exprStmt (← expr "expression") (← Json.optional Json.string? "directive" fields) pos
  | "BlockStatement" => return .blockStmt (← r.blockFields true fields)
  | "EmptyStatement" => return .emptyStmt pos
  | "VariableDeclaration" => return .variableStmt (← r.declaration true fields)
  | "FunctionDeclaration" => return .functionStmt (← r.function true fields)
  | "ClassDeclaration" => return .classStmt (← r.classLike true fields)
  | "ReturnStatement" => return .returnStmt (← optExpr "argument") pos
  | "IfStatement" =>
    return .ifStmt (← expr "test") (← stmt "consequent") (← optField (r.stmt true) "alternate" fields) pos
  | "ForStatement" =>
    return .forStmt (← optField r.forInit "init" fields) (← optExpr "test") (← optExpr "update")
      (← stmt "body") pos
  | "ForInStatement" =>
    return .forIn (← Json.required r.forHead "left" fields) (← expr "right") (← stmt "body") pos
  | "ForOfStatement" =>
    return .forOf (← Json.required r.forHead "left" fields) (← expr "right") (← stmt "body")
      (← Json.defaulted false Json.bool? "await" fields) pos
  | "WhileStatement" => return .whileStmt (← expr "test") (← stmt "body") pos
  | "DoWhileStatement" => return .doWhile (← expr "test") (← stmt "body") pos
  | "BreakStatement" => return .breakStmt (← label) pos
  | "ContinueStatement" => return .continueStmt (← label) pos
  | "ThrowStatement" => return .throwStmt (← expr "argument") pos
  | "TryStatement" =>
    return .tryStmt (← Json.required (r.block true) "block" fields)
      (← optField (r.catchClause true) "handler" fields) (← optField (r.block true) "finalizer" fields)
      pos
  | "SwitchStatement" =>
    return .switchStmt (← expr "discriminant") (← Json.required (listOf (r.switchCase true)) "cases" fields)
      pos
  | "LabeledStatement" => return .unsupportedStmt .labeled pos
  | "WithStatement" => return .unsupportedStmt .withStmt pos
  | "DebuggerStatement" => return .unsupportedStmt .debugger pos
  | "ImportDeclaration" => return .unsupportedStmt .importDecl pos
  | "ExportNamedDeclaration" => return .unsupportedStmt .exportNamed pos
  | "ExportDefaultDeclaration" => return .unsupportedStmt .exportDefault pos
  | _ => return .unsupportedStmt .exportAll pos

end Readers

/-- The readers of phrases that are nested at most `depth` levels. -/
def readers : (depth : Nat) → Readers
  | 0 => ⟨fun _ _ => none, fun _ _ => none, fun _ _ => none⟩
  | depth + 1 =>
    let r := readers depth
    ⟨r.readExpr, r.readPattern, r.readStmt⟩

inductive ProgramError where
  | unreadable
  | notProgram (found : String)
  deriving DecidableEq, Repr

def ProgramError.message : ProgramError → String
  | unreadable => "invalid ESTree JSON"
  | notProgram found => "expected a Program node at the root, found `" ++ found ++ "`"

namespace Program

def ofJson? (value : Json) : Option Program := do
  let fields ← value.object?
  let read := (readers value.depth).stmt false
  return {
    body := ← Json.required (Json.list? read) "body" fields
    sourceType := ← Json.defaulted .script (Json.keyword? false SourceType.ofWord?) "sourceType" fields
    pos := ← Pos.ofFields? fields }

def ofJson (value : Json) : Except ProgramError Program :=
  let read := match ofJson? value with
    | some p => .ok p
    | none => .error .unreadable
  match value.get? "type" with
  | some (.str type) => if type == "Program" then read else .error (.notProgram type)
  | _ => read

def ofText (text : String) : Except ProgramError Program :=
  match Json.parseValue? text with
  | some value => ofJson value
  | none => .error .unreadable

end Program

end Retarget.Syntax
