import Retarget.Lua.Print
import Retarget.Target.Options

/-!
# Functions that generated programs rely on

A program that needs one of these functions starts with its definition.
-/

namespace Retarget.Lua

inductive Helper where
  | assign
  | instanceOf
  | await
  | slice
  | typeOf
  deriving DecidableEq, Repr, Inhabited

namespace Helper

def all : List Helper := [.assign, .instanceOf, .await, .slice, .typeOf]

def name : Helper → String
  | assign => "__ls_assign"
  | instanceOf => "__ls_instanceof"
  | await => "__ls_await"
  | slice => "__ls_slice"
  | typeOf => "__ls_typeof"

def library (table function : String) (arguments : List Expr) : Expr :=
  .call (.field (.name table) function) arguments

def body (version : LuaVersion) : Helper → List String × List Stmt
  | assign =>
    let source := Expr.name "source"
    (["target", "..."],
      [.forRange "i" (.number 1) (.callName "select" [.string "#", .varargs])
        [.localValue "source" (.callName "select" [.name "i", .varargs]),
          .ifThen (.binary .ne source .nil)
            [.forIn ["k", "v"] (.callName "pairs" [source])
              [.assign (.index (.name "target") (.name "k")) (.name "v")]]],
        .ret (.name "target")])
  | instanceOf =>
    let value := Expr.name "value"
    let mt := Expr.name "mt"
    let parent := Expr.name "parent"
    (["value", "class"],
      [.ifThen (.binary .ne (.callName "type" [value]) (.string "table")) [.ret (.bool false)],
        .localValue "mt" (.callName "getmetatable" [value]),
        .whileLoop (.binary .ne mt .nil)
          [.ifThen (.binary .eq mt (.name "class")) [.ret (.bool true)],
            .localValue "parent" (.callName "getmetatable" [mt]),
            .assign mt (.binary .or (.binary .and parent (.field parent "__index")) .nil)],
        .ret (.bool false)])
  | await =>
    let value := Expr.name "value"
    let test := match version with
      | .v54 => "isyieldable"
      | .v51 => "running"
    (["value"],
      [.ifThen (library "coroutine" test []) [.ret (library "coroutine" "yield" [value])], .ret value])
  | slice =>
    let n := Expr.name "n"
    let out := Expr.name "out"
    let fromEnd (bound : String) : Stmt :=
      .ifThen (.binary .lt (.name bound) (.number 0))
        [.assign (.name bound) (library "math" "max" [.binary .add n (.name bound), .number 0])]
    (["list", "first", "last"],
      [.localValue "n" (.unary .length (.name "list")),
        .assign (.name "first") (.binary .or (.name "first") (.number 0)),
        .assign (.name "last") (.binary .or (.name "last") n),
        fromEnd "first", fromEnd "last", .localValue "out" (.table []),
        .forRange "i" (.binary .add (.name "first") (.number 1)) (library "math" "min" [.name "last", n])
          [.assign (.index out (.binary .add (.unary .length out) (.number 1)))
            (.index (.name "list") (.name "i"))],
        .ret out])
  | typeOf =>
    let t := Expr.name "t"
    (["value"],
      [.localValue "t" (.callName "type" [.name "value"]),
        .ifBlock (.binary .eq t (.string "nil")) [.ret (.string "undefined")]
          (.elseIf (.binary .eq t (.string "table")) [.ret (.string "object")] .none),
        .ret t])

def definition (version : LuaVersion) (h : Helper) : Stmt :=
  let (params, body) := h.body version
  .function (.localName h.name) params body

def text (version : LuaVersion) (h : Helper) : String := (h.definition version).text 4 0

end Helper

end Retarget.Lua
