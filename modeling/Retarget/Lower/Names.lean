import Retarget.Json.Print
import Retarget.Syntax.Basic

/-!
# Names in a program

Which names a pattern binds, which variables belong to a whole function, and which property a literal key
stands for.
-/

namespace Retarget.Syntax

namespace Tree

def patternNames : Tree s → List String
  | cons head tail => head.patternNames ++ tail.patternNames
  | present item => item.patternNames
  | idPattern id => [id.name]
  | objectPattern members _ => members.patternNames
  | arrayPattern elements _ => elements.patternNames
  | restPattern argument _ => argument.patternNames
  | defaultPattern target _ _ => target.patternNames
  | patternProperty _ value _ _ _ => value.patternNames
  | patternRest argument _ => argument.patternNames
  | declarator target _ _ => target.patternNames
  | declaration _ declarators _ => declarators.patternNames
  | _ => []

/-- The names declared by `var` in a statement, without those of nested functions. -/
def varNames : Tree s → List String
  | cons head tail => head.varNames ++ tail.varNames
  | present item => item.varNames
  | declaration .varKind declarators _ => declarators.patternNames
  | variableStmt d | initDeclaration d | headDeclaration d => d.varNames
  | blockStmt b => b.varNames
  | block body _ => body.varNames
  | ifStmt _ consequent alternate _ => consequent.varNames ++ alternate.varNames
  | forStmt init _ _ body _ => init.varNames ++ body.varNames
  | forIn left _ body _ | forOf left _ body _ _ => left.varNames ++ body.varNames
  | whileStmt _ body _ | doWhile _ body _ => body.varNames
  | tryStmt body handler finalizer _ => body.varNames ++ handler.varNames ++ finalizer.varNames
  | catchClause _ body _ => body.varNames
  | switchStmt _ cases _ => cases.varNames
  | switchCase _ consequent _ => consequent.varNames
  | _ => []

def unparenthesized : Tree s → Tree s
  | parenthesized expression _ => expression.unparenthesized
  | tree => tree

end Tree

/-- The names declared in a block itself, other than by `var`. -/
def lexicalNames (body : List Stmt) : List String :=
  body.flatMap fun
    | .variableStmt (.declaration .varKind _ _) => []
    | .variableStmt d => d.patternNames
    | .functionStmt (.function (some id) ..) => [id.name]
    | .classStmt (.classLike (some id) ..) => [id.name]
    | _ => []

def functionNames (body : List Stmt) : List String :=
  body.flatMap fun
    | .functionStmt (.function (some id) ..) => [id.name]
    | _ => []

def directive? : Stmt → Option String
  | .exprStmt _ directive _ => directive
  | _ => none

def directives : List Stmt → List String
  | [] => []
  | stmt :: rest =>
    match directive? stmt with
    | some directive => directive :: directives rest
    | none => []

def afterDirectives (body : List Stmt) : List Stmt := body.dropWhile fun stmt => (directive? stmt).isSome

def Literal.key (lit : Literal) : String :=
  match lit.value with
  | .str s => s
  | .num n =>
    let x := n.toFloat
    match wholeNumber? x with
    | some whole => toString whole
    | none => FloatLayout.plain.write x
  | value => value.compact

end Retarget.Syntax
