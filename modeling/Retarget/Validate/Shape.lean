import Retarget.Json.Print
import Retarget.Module.Version
import Retarget.Node.Basic

/-!
# The shape of module documents

Every kind of node has a closed table of fields (`Shape.kinds`). `Shape.documentProblems` checks a document
against it without reading the nodes; the same table gives the published schema of the format.
-/

namespace Retarget

inductive FieldType where
  | id
  | optId
  | ids
  | items
  | text
  | optText
  | texts
  | flag
  | number
  | oneOf (words : List String)
  deriving DecidableEq, Repr

/-- Whether a field may be missing or `null`. -/
def FieldType.isOptional : FieldType → Bool
  | optId | optText => true
  | _ => false

structure ShapeProblem where
  path : String
  cause : String
  deriving DecidableEq, Repr

def ShapeProblem.message (p : ShapeProblem) : String := p.path ++ ": " ++ p.cause

namespace Shape

abbrev FieldTable := List (String × FieldType)

def envelope : List String := ["id", "kind", "span", "type", "synthetic"]

def function : FieldTable :=
  [("name", .optText), ("params", .ids), ("rest", .optId), ("body", .id), ("isAsync", .flag)]

def classLike : FieldTable :=
  [("name", .text), ("superClass", .optId), ("constructor", .id), ("methods", .ids),
    ("staticProperties", .ids), ("metadata", .id), ("prototype", .id)]

def call : FieldTable := [("callee", .id), ("arguments", .items), ("hasSpread", .flag)]

def loop : FieldTable := [("test", .id), ("body", .id)]

def kinds : List (String × FieldTable) :=
  [("NumericLiteral", [("value", .number)]),
    ("StringLiteral", [("value", .text)]),
    ("BooleanLiteral", [("value", .flag)]),
    ("NullLiteral", []),
    ("UndefinedLiteral", []),
    ("TemplateLiteral", [("parts", .ids)]),
    ("TemplateElement", [("cooked", .text), ("raw", .text)]),
    ("Identifier", [("name", .text), ("binding", .optId)]),
    ("ThisExpression", []),
    ("Super", []),
    ("BinaryExpression",
      [("operator", .oneOf (BinaryOperator.all.map (·.symbol))), ("left", .id), ("right", .id)]),
    ("LogicalExpression",
      [("operator", .oneOf (LogicalOperator.all.map (·.symbol))), ("left", .id), ("right", .id)]),
    ("UnaryExpression", [("operator", .oneOf (UnaryOperator.all.map (·.symbol))), ("argument", .id)]),
    ("UpdateExpression",
      [("operator", .oneOf (UpdateOperator.all.map (·.symbol))), ("prefix", .flag), ("argument", .id)]),
    ("AssignmentExpression",
      [("operator", .oneOf (AssignmentOperator.all.map (·.symbol))), ("target", .id), ("value", .id)]),
    ("ConditionalExpression", [("test", .id), ("consequent", .id), ("alternate", .id)]),
    ("CallExpression", call),
    ("NewExpression", call),
    ("MemberExpression", [("object", .id), ("property", .id), ("computed", .flag)]),
    ("ArrayExpression", [("elements", .items), ("hasSpread", .flag)]),
    ("ObjectExpression", [("properties", .ids)]),
    ("Property", [("key", .id), ("value", .id), ("computed", .flag)]),
    ("SpreadElement", [("argument", .id)]),
    ("SequenceExpression", [("expressions", .ids)]),
    ("AwaitExpression", [("argument", .id)]),
    ("FunctionExpression", function),
    ("ArrowFunctionExpression", function),
    ("ClassExpression", classLike),
    ("FunctionDeclaration", function),
    ("ClassDeclaration", classLike),
    ("Parameter", [("name", .text)]),
    ("RestElement", [("argument", .id)]),
    ("VariableDeclaration",
      [("declarationKind", .oneOf (DeclarationKind.all.map (·.word))), ("declarations", .ids)]),
    ("VariableDeclarator", [("name", .text), ("init", .optId)]),
    ("MethodDefinition",
      [("key", .text), ("value", .id), ("methodKind", .oneOf (MethodKind.all.map (·.word))),
        ("isStatic", .flag), ("home", .optId)]),
    ("ClassMetadata",
      [("superClass", .optText), ("derived", .flag), ("instanceMethods", .texts),
        ("staticMethods", .texts), ("instanceFields", .texts), ("staticFields", .texts)]),
    ("PrototypeReference", [("className", .text)]),
    ("ExpressionStatement", [("expression", .id)]),
    ("BlockStatement", [("body", .ids)]),
    ("EmptyStatement", []),
    ("IfStatement", [("test", .id), ("consequent", .id), ("alternate", .optId)]),
    ("ForStatement", [("init", .optId), ("test", .optId), ("update", .optId), ("body", .id)]),
    ("ForEachStatement",
      [("iterate", .oneOf (IterationKind.all.map (·.word))), ("binding", .id), ("iterable", .id),
        ("body", .id)]),
    ("WhileStatement", loop),
    ("DoWhileStatement", loop),
    ("BreakStatement", []),
    ("ContinueStatement", []),
    ("ReturnStatement", [("argument", .optId)]),
    ("ThrowStatement", [("argument", .id)]),
    ("TryStatement", [("block", .id), ("handler", .optId), ("finalizer", .optId)]),
    ("CatchClause", [("param", .optId), ("body", .id)]),
    ("SwitchStatement", [("discriminant", .id), ("cases", .ids)]),
    ("SwitchCase", [("test", .optId), ("consequent", .ids)])]

/-- The fields of the kind called `name`. -/
def fieldsOf? (name : String) : Option FieldTable := (kinds.find? (·.1 == name)).map (·.2)

def isId : Json → Bool
  | .num (.int (.ofNat n)) => n < 0x100000000
  | _ => false

def isNatural : Json → Bool
  | .num (.int (.ofNat _)) => true
  | _ => false

def isText : Json → Bool
  | .str _ => true
  | _ => false

def require (ok : Bool) (path cause : String) : List ShapeProblem := if ok then [] else [⟨path, cause⟩]

def expected (what : String) (value : Json) : String :=
  "expected " ++ what ++ ", found " ++ value.kindName

def missingField : String := "missing required field"

variable (path : String)

def element (index : Nat) : String := path ++ "[" ++ toString index ++ "]"

def flagProblems : Option Json → List ShapeProblem
  | none => [⟨path, missingField⟩]
  | some (.bool _) => []
  | some value => [⟨path, expected "a boolean" value⟩]

def idProblems : Option Json → List ShapeProblem
  | none => [⟨path, missingField⟩]
  | some value => require (isId value) path (expected "a node id" value)

def idListProblems : Json → List ShapeProblem
  | .arr items =>
    (items.mapIdx fun i item => require (isId item) (element path i) (expected "a node id" item)).flatten
  | value => [⟨path, expected "an array of ids" value⟩]

def itemProblems : Json → List ShapeProblem
  | .obj fields =>
    flagProblems (path ++ ".spread") (Json.lookup? "spread" fields) ++
    idProblems (path ++ ".value") (Json.lookup? "value" fields) ++
    (fields.filter fun (name, _) => name != "spread" && name != "value").map fun (name, _) =>
      ⟨path ++ "." ++ name, "unknown field"⟩
  | value => [⟨path, expected "an object" value⟩]

def itemListProblems : Json → List ShapeProblem
  | .arr items => (items.mapIdx fun i item => itemProblems (element path i) item).flatten
  | value => [⟨path, expected "an array" value⟩]

def valueProblems : FieldType → Json → List ShapeProblem
  | .id, value | .optId, value => require (isId value) path (expected "a node id" value)
  | .ids, value => idListProblems path value
  | .items, value => itemListProblems path value
  | .text, value | .optText, value => require (isText value) path (expected "a string" value)
  | .texts, .arr items => require (items.all isText) path "expected an array of strings"
  | .texts, _ => [⟨path, "expected an array of strings"⟩]
  | .flag, value => flagProblems path (some value)
  | .number, .num _ => []
  | .number, value => [⟨path, expected "a number" value⟩]
  | .oneOf words, .str word =>
    require (words.contains word) path ("`" ++ word ++ "` is not one of " ++ " ".intercalate words)
  | .oneOf _, value => [⟨path, expected "a string" value⟩]

/-- A field of a type, which may be missing or `null` if it is optional. -/
def fieldProblems (type : FieldType) (value : Option Json) : List ShapeProblem :=
  match value with
  | none => if type.isOptional then [] else [⟨path, missingField⟩]
  | some .null => if type.isOptional then [] else valueProblems path type .null
  | some value => valueProblems path type value

def isPosition (value : Option Json) : Bool :=
  match value with
  | some (.obj fields) =>
    ((Json.lookup? "line" fields).map isNatural).getD false &&
      ((Json.lookup? "column" fields).map isNatural).getD false
  | _ => false

def spanProblems : Json → List ShapeProblem
  | .obj fields => ["start", "end"].flatMap fun side =>
    require (isPosition (Json.lookup? side fields)) (path ++ "." ++ side)
      "expected a position with line and column"
  | value => [⟨path, expected "an object" value⟩]

def looseNat? (text : String) : Option Nat :=
  let digits := match text.toList with
    | '+' :: rest => rest
    | rest => rest
  if !digits.isEmpty && digits.all Char.isDigit then some (Json.digitsValue digits) else none

def nodeIdProblems (path key : String) : Option Json → List ShapeProblem
  | none => [⟨path ++ ".id", missingField⟩]
  | some (.num (.int (.ofNat n))) =>
    if n < 0x100000000 then
      require (looseNat? key == some n) (path ++ ".id") (toString n ++ " does not match its key")
    else [⟨path ++ ".id", "expected a node id, found a number"⟩]
  | some value => [⟨path ++ ".id", expected "a node id" value⟩]

def envelopeProblems (fields : List (String × Json)) : List ShapeProblem :=
  (match Json.lookup? "span" fields with
    | none | some .null => []
    | some span => spanProblems (path ++ ".span") span) ++
  (match Json.lookup? "type" fields with
    | none | some .null => []
    | some type =>
      require (((type.get? "kind").map isText).getD false) (path ++ ".type") "expected a type descriptor") ++
  (match Json.lookup? "synthetic" fields with
    | none | some (.bool _) => []
    | some _ => [⟨path ++ ".synthetic", "expected a boolean"⟩])

def kindProblems (fields : List (String × Json)) : List ShapeProblem :=
  match Json.lookup? "kind" fields with
  | some (.str kind) =>
    match fieldsOf? kind with
    | none => [⟨path ++ ".kind", "unknown node kind `" ++ kind ++ "`"⟩]
    | some table =>
      (table.flatMap fun (name, type) =>
        fieldProblems (path ++ "." ++ name) type (Json.lookup? name fields)) ++
      (fields.filter fun (name, _) => !(envelope.contains name || table.any (·.1 == name))).map
        fun (name, _) => ⟨path ++ "." ++ name, "unknown field for " ++ kind⟩
  | _ => [⟨path ++ ".kind", "missing or not a string"⟩]

/-- What is wrong with the shape of a node that is stored under `key`. -/
def nodeProblems (key : String) (value : Json) : List ShapeProblem :=
  let path := "nodes." ++ key
  match value with
  | .obj fields =>
    nodeIdProblems path key (Json.lookup? "id" fields) ++ envelopeProblems path fields ++
      kindProblems path fields
  | value => [⟨path, expected "an object" value⟩]

def versionProblems : Option Json → List ShapeProblem
  | some (.str version) =>
    require (isCompatible version) "schemaVersion"
      ("`" ++ version ++ "` is not compatible with " ++ schemaVersion)
  | _ => [⟨"schemaVersion", "missing or not a string"⟩]

def tableProblems : Option Json → List ShapeProblem
  | some (.obj nodes) => nodes.flatMap fun (key, node) => nodeProblems key node
  | some _ => [⟨"nodes", "expected an object keyed by id"⟩]
  | none => [⟨"nodes", missingField⟩]

def metadataProblems : Option Json → List ShapeProblem
  | none | some (.obj _) => []
  | some value => [⟨"metadata", expected "an object" value⟩]

def topLevelNames : List String := ["schemaVersion", "nodes", "body", "metadata"]

def documentProblems : Json → List ShapeProblem
  | .obj fields =>
    versionProblems (Json.lookup? "schemaVersion" fields) ++
    tableProblems (Json.lookup? "nodes" fields) ++
    fieldProblems "body" .ids (Json.lookup? "body" fields) ++
    metadataProblems (Json.lookup? "metadata" fields) ++
    (fields.filter fun (name, _) => !topLevelNames.contains name).map
      fun (name, _) => ⟨name, "unknown top-level field"⟩
  | value => [⟨"$", expected "an object" value⟩]

end Shape

end Retarget
