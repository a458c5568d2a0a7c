import Retarget.Syntax.Basic

/-!
# Programs made in code

Constructors for the phrases of programs that are not read from a document, so that they have no positions.
-/

namespace Retarget.Syntax.Make

variable (key : String) (params : List Pattern) (body : List Stmt)

def program : Program := { body := body }

def braces : Block := .block (.ofList body) {}

/-! ## Expressions -/

def name (s : String) : Expr := .identifier ⟨s, {}⟩

def literal (value : Json) : Expr := .literal { value := value }

def number (x : Float) : Expr := literal (.ofFloat x)

def string (s : String) : Expr := literal (.str s)

def boolean (b : Bool) : Expr := literal (.bool b)

def null : Expr := literal .null

def this : Expr := .thisExpr {}

def super : Expr := .superExpr {}

def quasis : List String → List TemplateElement
  | [] => []
  | [text] => [⟨text, some text, true, {}⟩]
  | text :: more => ⟨text, some text, false, {}⟩ :: quasis more

def template (texts : List String) (expressions : List Expr) : Expr :=
  .template (quasis texts) (.ofList expressions) {}

def holedArray (elements : List (Option Expr)) : Expr :=
  .array (.ofList (elements.map Tree.ofOption)) {}

def array (elements : List Expr) : Expr := holedArray (elements.map some)

def spread (argument : Expr) : Expr := .spread argument {}

def object (members : List (Tree .objectMember)) : Expr := .object (.ofList members) {}

def property (value : Expr) : Tree .objectMember :=
  .property (name key) value .init false false false {}

def computedProperty (key value : Expr) : Tree .objectMember :=
  .property key value .init true false false {}

def spreadProperty (argument : Expr) : Tree .objectMember := .spreadMember argument {}

def binary (operator : String) (left right : Expr) : Expr := .binary operator left right {}

def logical (operator : String) (left right : Expr) : Expr := .logical operator left right {}

def unary (operator : String) (argument : Expr) : Expr := .unary operator argument true {}

def update (operator : String) (before : Bool) (argument : Expr) : Expr :=
  .update operator argument before {}

def assign (operator : String) (target : Pattern) (value : Expr) : Expr := .assign operator target value {}

def conditional (test consequent alternate : Expr) : Expr := .conditional test consequent alternate {}

def call (callee : Expr) (arguments : List Expr) : Expr := .call callee (.ofList arguments) false {}

def new (callee : Expr) (arguments : List Expr) : Expr := .newExpr callee (.ofList arguments) false {}

def member (object : Expr) (key : String) : Expr := .memberExpr (.member object (name key) false false {})

def index (object key : Expr) : Expr := .memberExpr (.member object key true false {})

def sequence (expressions : List Expr) : Expr := .sequence (.ofList expressions) {}

def await (argument : Expr) : Expr := .awaitExpr argument {}

def arrow (value : Expr) : Expr :=
  .arrow (.ofList params) (.arrowValue value) false {}

def arrowBlock : Expr :=
  .arrow (.ofList params) (.arrowBlock (braces body)) false {}

def functionOf (id : Option String) (params : List Pattern) (body : List Stmt) (isAsync : Bool) : Tree .function :=
  .function (id.map (⟨·, {}⟩)) (.ofList params) (braces body) isAsync false {}

def functionExpr (id : Option String) (params : List Pattern) (body : List Stmt) : Expr :=
  .functionExpr (functionOf id params body false)

def classOf (id : Option String) (superClass : Option Expr) (members : List (Tree .classMember)) : Tree .classLike :=
  .classLike (id.map (⟨·, {}⟩)) (.ofOption superClass) (.ofList members) {} {}

def classExpr (id : Option String) (superClass : Option Expr) (members : List (Tree .classMember)) : Expr :=
  .classExpr (classOf id superClass members)

/-! ## Patterns -/

def nameTarget (s : String) : Pattern := .idPattern ⟨s, {}⟩

def memberTarget (object : Expr) (key : String) : Pattern :=
  .memberPattern (.member object (name key) false false {})

def isName : Pattern → Bool
  | .idPattern id => id.name == key
  | _ => false

/-- A property of an object pattern; one whose target is its own name is a shorthand. -/
def patternProperty (target : Pattern) : Tree .patternMember :=
  .patternProperty (name key) target false (isName key target) {}

def objectPattern (entries : List (String × Pattern)) (rest : Option String) : Pattern :=
  .objectPattern (.ofList (entries.map (fun (key, target) => patternProperty key target) ++
    rest.toList.map fun s => .patternRest (nameTarget s) {})) {}

def restPattern (argument : Pattern) : Pattern := .restPattern argument {}

def arrayPattern (elements : List (Option Pattern)) (rest : Option Pattern) : Pattern :=
  .arrayPattern (.ofList ((elements ++ rest.toList.map fun p => some (restPattern p)).map Tree.ofOption)) {}

def defaultPattern (target : Pattern) (value : Expr) : Pattern := .defaultPattern target value {}

/-! ## Members of classes -/

def methodOf (role : MethodRole) (isStatic : Bool) (params : List Pattern) (body : List Stmt) : Tree .classMember :=
  .method (name key) (functionOf none params body false) role false isStatic {}

def constructor (params : List Pattern) (body : List Stmt) : Tree .classMember :=
  methodOf "constructor" .constructor false params body

def method : Tree .classMember :=
  methodOf key .method false params body

def staticMethod : Tree .classMember :=
  methodOf key .method true params body

def getter : Tree .classMember := methodOf key .getter false [] body

def field (value : Option Expr) (isStatic : Bool) : Tree .classMember :=
  .field (name key) (.ofOption value) false isStatic {}

/-! ## Statements -/

def exprStmt (value : Expr) : Stmt := .exprStmt value none {}

def directive (s : String) : Stmt := .exprStmt (string s) (some s) {}

def declaration (kind : DeclarationKind) (entries : List (Pattern × Option Expr)) : Tree .declaration :=
  .declaration kind
    (.ofList (entries.map fun (target, init) => .declarator target (.ofOption init) {})) {}

def declare (kind : DeclarationKind) (target : Pattern) (init : Option Expr) : Stmt :=
  .variableStmt (declaration kind [(target, init)])

def declareName (kind : DeclarationKind) (s : String) (init : Option Expr) : Stmt :=
  declare kind (nameTarget s) init

def block : Stmt := .blockStmt (braces body)

def ret (argument : Option Expr) : Stmt := .returnStmt (.ofOption argument) {}

def branch (test : Expr) (consequent : List Stmt) (alternate : Option Stmt) : Stmt :=
  .ifStmt test (block consequent) (.ofOption alternate) {}

def while_ (test : Expr) (body : List Stmt) : Stmt := .whileStmt test (block body) {}

def doWhile (test : Expr) : Stmt := .doWhile test (block body) {}

def for_ (init : Option (Tree .forInit)) (test update : Option Expr) (body : List Stmt) : Stmt :=
  .forStmt (.ofOption init) (.ofOption test) (.ofOption update) (block body) {}

def loopHead (kind : DeclarationKind) (target : Pattern) : Tree .forHead :=
  .headDeclaration (declaration kind [(target, none)])

def forOf (kind : DeclarationKind) (target : Pattern) (iterable : Expr) (body : List Stmt) : Stmt :=
  .forOf (loopHead kind target) iterable (block body) false {}

def forIn (kind : DeclarationKind) (target : Pattern) (object : Expr) (body : List Stmt) : Stmt :=
  .forIn (loopHead kind target) object (block body) {}

def break_ : Stmt := .breakStmt none {}

def continue_ : Stmt := .continueStmt none {}

def throw_ (argument : Expr) : Stmt := .throwStmt argument {}

def try_ (handler : Option (Option Pattern × List Stmt)) (finalizer : Option (List Stmt)) : Stmt :=
  .tryStmt (braces body)
    (.ofOption (handler.map fun (param, body) => .catchClause (.ofOption param) (braces body) {}))
    (.ofOption (finalizer.map braces)) {}

def switch (discriminant : Expr) (cases : List (Option Expr × List Stmt)) : Stmt :=
  .switchStmt discriminant
    (.ofList (cases.map fun (test, body) => .switchCase (.ofOption test) (.ofList body) {})) {}

def function (id : String) (params : List Pattern) (body : List Stmt) (isAsync : Bool) : Stmt :=
  .functionStmt (functionOf (some id) params body isAsync)

def classDecl (id : String) (superClass : Option Expr) (members : List (Tree .classMember)) : Stmt :=
  .classStmt (classOf (some id) superClass members)

end Retarget.Syntax.Make
