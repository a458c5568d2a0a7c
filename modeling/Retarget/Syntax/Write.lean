import Retarget.Syntax.Basic

/-!
# Programs as documents

`Tree.toJson` writes a phrase in the form of ESTree, with the defaults of all fields filled in. Expressions,
statements, patterns and members have their type in front. Where only one type of phrase can stand, and
where a declaration or a block stands in place of an expression or a pattern, the type is left out.
-/

namespace Retarget

namespace Json

def tagged (type : String) : Json → Json
  | .obj fields => .obj (("type", .str type) :: fields)
  | value => value

def push (item : Json) : Json → Json
  | .arr items => .arr (item :: items)
  | value => value

end Json

namespace Syntax

def LineColumn.toJson (p : LineColumn) : Json :=
  .obj [("line", .ofNat p.line), ("column", .ofNat p.column)]

def SourceLocation.toJson (loc : SourceLocation) : Json :=
  .obj <| [("start", loc.start.toJson), ("end", loc.stop.toJson)] ++
    Json.optionalField "source" .str loc.source

def Pos.fields (p : Pos) : Json.Fields :=
  Json.optionalField "loc" SourceLocation.toJson p.loc ++ Json.optionalField "start" .ofNat p.start ++
    Json.optionalField "end" .ofNat p.stop

def record (fields : Json.Fields) (pos : Pos) : Json := .obj (fields ++ pos.fields)

def Identifier.toJson (id : Identifier) : Json := record [("name", .str id.name)] id.pos

def Literal.toJson (lit : Literal) : Json :=
  record ([("value", lit.value)] ++ Json.optionalField "raw" .str lit.raw ++
    Json.optionalField "regex" id lit.regex ++ Json.optionalField "bigint" .str lit.bigint) lit.pos

def TemplateElement.toJson (e : TemplateElement) : Json :=
  record [("value", .obj [("raw", .str e.raw), ("cooked", .ofOption .str e.cooked)]),
    ("tail", .bool e.tail)] e.pos

def SourceType.word : SourceType → String
  | script => "script"
  | module => "module"

def MethodRole.word : MethodRole → String
  | constructor => "constructor"
  | method => "method"
  | getter => "get"
  | setter => "set"

def PropertyRole.word : PropertyRole → String
  | init => "init"
  | getter => "get"
  | setter => "set"

namespace Tree

def toJson : Tree s → Json
  | nil => .arr []
  | cons head tail => .push head.toJson tail.toJson
  | absent => .null
  | present item => item.toJson
  | identifier id => .tagged "Identifier" id.toJson
  | literal lit => .tagged "Literal" lit.toJson
  | template quasis expressions pos =>
    .tagged "TemplateLiteral" <| record
      [("quasis", .ofList TemplateElement.toJson quasis), ("expressions", expressions.toJson)] pos
  | thisExpr pos => .tagged "ThisExpression" <| record [] pos
  | superExpr pos => .tagged "Super" <| record [] pos
  | array elements pos => .tagged "ArrayExpression" <| record [("elements", elements.toJson)] pos
  | object members pos => .tagged "ObjectExpression" <| record [("properties", members.toJson)] pos
  | functionExpr f => .tagged "FunctionExpression" f.toJson
  | arrow params body isAsync pos =>
    .tagged "ArrowFunctionExpression" <| record
      [("params", params.toJson), ("body", body.toJson), ("async", .bool isAsync)] pos
  | classExpr c => .tagged "ClassExpression" c.toJson
  | unary operator argument before pos =>
    .tagged "UnaryExpression" <| record
      [("operator", .str operator), ("argument", argument.toJson), ("prefix", .bool before)] pos
  | update operator argument before pos =>
    .tagged "UpdateExpression" <| record
      [("operator", .str operator), ("argument", argument.toJson), ("prefix", .bool before)] pos
  | binary operator left right pos =>
    .tagged "BinaryExpression" <| record
      [("operator", .str operator), ("left", left.toJson), ("right", right.toJson)] pos
  | logical operator left right pos =>
    .tagged "LogicalExpression" <| record
      [("operator", .str operator), ("left", left.toJson), ("right", right.toJson)] pos
  | assign operator target value pos =>
    .tagged "AssignmentExpression" <| record
      [("operator", .str operator), ("left", target.toJson), ("right", value.toJson)] pos
  | conditional test consequent alternate pos =>
    .tagged "ConditionalExpression" <| record
      [("test", test.toJson), ("consequent", consequent.toJson), ("alternate", alternate.toJson)] pos
  | call callee arguments optional pos =>
    .tagged "CallExpression" <| record
      [("callee", callee.toJson), ("arguments", arguments.toJson), ("optional", .bool optional)] pos
  | newExpr callee arguments optional pos =>
    .tagged "NewExpression" <| record
      [("callee", callee.toJson), ("arguments", arguments.toJson), ("optional", .bool optional)] pos
  | memberExpr m => .tagged "MemberExpression" m.toJson
  | sequence expressions pos =>
    .tagged "SequenceExpression" <| record [("expressions", expressions.toJson)] pos
  | awaitExpr argument pos => .tagged "AwaitExpression" <| record [("argument", argument.toJson)] pos
  | spread argument pos => .tagged "SpreadElement" <| record [("argument", argument.toJson)] pos
  | parenthesized expression pos =>
    .tagged "ParenthesizedExpression" <| record [("expression", expression.toJson)] pos
  | unsupportedExpr kind pos => .tagged kind.typeName <| record [] pos
  | member base key computed optional pos => record
      [("object", base.toJson), ("property", key.toJson), ("computed", .bool computed),
        ("optional", .bool optional)] pos
  | property key value role computed isMethod shorthand pos =>
    .tagged "Property" <| record
      [("key", key.toJson), ("value", value.toJson), ("kind", .str role.word),
        ("computed", .bool computed), ("method", .bool isMethod), ("shorthand", .bool shorthand)] pos
  | spreadMember argument pos => .tagged "SpreadElement" <| record [("argument", argument.toJson)] pos
  | idPattern id => .tagged "Identifier" id.toJson
  | objectPattern members pos => .tagged "ObjectPattern" <| record [("properties", members.toJson)] pos
  | arrayPattern elements pos => .tagged "ArrayPattern" <| record [("elements", elements.toJson)] pos
  | restPattern argument pos => .tagged "RestElement" <| record [("argument", argument.toJson)] pos
  | defaultPattern target value pos =>
    .tagged "AssignmentPattern" <| record [("left", target.toJson), ("right", value.toJson)] pos
  | memberPattern m => .tagged "MemberExpression" m.toJson
  | patternProperty key value computed shorthand pos =>
    .tagged "Property" <| record
      [("key", key.toJson), ("value", value.toJson), ("computed", .bool computed),
        ("shorthand", .bool shorthand)] pos
  | patternRest argument pos => .tagged "RestElement" <| record [("argument", argument.toJson)] pos
  | function id params body isAsync generator pos => record
      [("id", .ofOption Identifier.toJson id), ("params", params.toJson), ("body", body.toJson),
        ("async", .bool isAsync), ("generator", .bool generator)] pos
  | arrowBlock body => body.toJson
  | arrowValue value => value.toJson
  | classLike id superClass members bodyPos pos => record
      [("id", .ofOption Identifier.toJson id), ("superClass", superClass.toJson),
        ("body", record [("body", members.toJson)] bodyPos)] pos
  | method key value role computed isStatic pos =>
    .tagged "MethodDefinition" <| record
      [("key", key.toJson), ("value", value.toJson), ("kind", .str role.word),
        ("computed", .bool computed), ("static", .bool isStatic)] pos
  | field key value computed isStatic pos =>
    .tagged "PropertyDefinition" <| record
      [("key", key.toJson), ("value", value.toJson), ("computed", .bool computed),
        ("static", .bool isStatic)] pos
  | staticBlock pos => .tagged "StaticBlock" <| record [] pos
  | block body pos => record [("body", body.toJson)] pos
  | declaration kind declarators pos => record
      [("kind", .str kind.word), ("declarations", declarators.toJson)] pos
  | declarator target init pos => record [("id", target.toJson), ("init", init.toJson)] pos
  | initDeclaration d => d.toJson
  | initExpr e => e.toJson
  | headDeclaration d => d.toJson
  | headPattern p => p.toJson
  | switchCase test consequent pos => record
      [("test", test.toJson), ("consequent", consequent.toJson)] pos
  | catchClause param body pos => record [("param", param.toJson), ("body", body.toJson)] pos
  | exprStmt value directive pos =>
    .tagged "ExpressionStatement" <| record
      ([("expression", value.toJson)] ++ Json.optionalField "directive" .str directive) pos
  | blockStmt b => .tagged "BlockStatement" b.toJson
  | emptyStmt pos => .tagged "EmptyStatement" <| record [] pos
  | variableStmt d => .tagged "VariableDeclaration" d.toJson
  | functionStmt f => .tagged "FunctionDeclaration" f.toJson
  | classStmt c => .tagged "ClassDeclaration" c.toJson
  | returnStmt argument pos => .tagged "ReturnStatement" <| record [("argument", argument.toJson)] pos
  | ifStmt test consequent alternate pos =>
    .tagged "IfStatement" <| record
      [("test", test.toJson), ("consequent", consequent.toJson), ("alternate", alternate.toJson)] pos
  | forStmt init test step body pos =>
    .tagged "ForStatement" <| record
      [("init", init.toJson), ("test", test.toJson), ("update", step.toJson),
        ("body", body.toJson)] pos
  | forIn left right body pos =>
    .tagged "ForInStatement" <| record
      [("left", left.toJson), ("right", right.toJson), ("body", body.toJson)] pos
  | forOf left right body isAwait pos =>
    .tagged "ForOfStatement" <| record
      [("left", left.toJson), ("right", right.toJson), ("body", body.toJson),
        ("await", .bool isAwait)] pos
  | whileStmt test body pos =>
    .tagged "WhileStatement" <| record [("test", test.toJson), ("body", body.toJson)] pos
  | doWhile test body pos =>
    .tagged "DoWhileStatement" <| record [("test", test.toJson), ("body", body.toJson)] pos
  | breakStmt label pos =>
    .tagged "BreakStatement" <| record [("label", .ofOption Identifier.toJson label)] pos
  | continueStmt label pos =>
    .tagged "ContinueStatement" <| record [("label", .ofOption Identifier.toJson label)] pos
  | throwStmt argument pos => .tagged "ThrowStatement" <| record [("argument", argument.toJson)] pos
  | tryStmt body handler finalizer pos =>
    .tagged "TryStatement" <| record
      [("block", body.toJson), ("handler", handler.toJson), ("finalizer", finalizer.toJson)] pos
  | switchStmt discriminant cases pos =>
    .tagged "SwitchStatement" <| record
      [("discriminant", discriminant.toJson), ("cases", cases.toJson)] pos
  | unsupportedStmt kind pos => .tagged kind.typeName <| record [] pos

end Tree

def Program.toJson (p : Program) : Json :=
  record [("body", (Tree.ofList p.body).toJson), ("sourceType", .str p.sourceType.word)] p.pos

end Syntax

end Retarget
