/-!
# Lua programs

The part of Lua that is generated, as trees. Parentheses are kept, so that a tree has one text, and it is not
taken for granted that this text is read back as the same tree.
-/

namespace Retarget.Lua

inductive BinaryOp where
  | or | and
  | lt | gt | le | ge | ne | eq
  | bor | bxor | band
  | shl | shr
  | concat
  | add | sub
  | mul | div | idiv
  | pow
  deriving DecidableEq, Repr, Inhabited

def BinaryOp.symbol : BinaryOp → String
  | or => "or"
  | and => "and"
  | lt => "<"
  | gt => ">"
  | le => "<="
  | ge => ">="
  | ne => "~="
  | eq => "=="
  | bor => "|"
  | bxor => "~"
  | band => "&"
  | shl => "<<"
  | shr => ">>"
  | concat => ".."
  | add => "+"
  | sub => "-"
  | mul => "*"
  | div => "/"
  | idiv => "//"
  | pow => "^"

inductive UnaryOp where
  | neg | not | bnot | length
  deriving DecidableEq, Repr, Inhabited

def UnaryOp.symbol : UnaryOp → String
  | neg => "-"
  | not => "not "
  | bnot => "~"
  | length => "#"

inductive FunctionName where
  | localName (name : String)
  | plain (name : String)
  | field (table name : String)
  /-- A field of a table that takes its receiver as `self`. -/
  | method (table name : String)
  deriving DecidableEq, Repr, Inhabited

mutual

inductive Expr where
  | nil
  | bool (value : Bool)
  | number (value : Float)
  | string (value : String)
  | name (name : String)
  | varargs
  | paren (inner : Expr)
  | binary (op : BinaryOp) (left right : Expr)
  | unary (op : UnaryOp) (operand : Expr)
  | index (table key : Expr)
  | field (table : Expr) (name : String)
  | call (function : Expr) (arguments : List Expr)
  | method (receiver : Expr) (name : String) (arguments : List Expr)
  /-- A function. Its last line is indented by `level` levels, and its body by one more. -/
  | function (level : Nat) (params : List String) (body : List Stmt)
  | table (entries : List Entry)

inductive Entry where
  | item (value : Expr)
  | named (name : String) (value : Expr)
  | keyed (key value : Expr)

inductive Simple where
  | comment (text : String)
  | local (names : List String) (values : List Expr)
  | assign (target value : Expr)
  | call (value : Expr)
  | goto (label : String)
  | label (name : String)
  | breakLoop
  | ret (values : List Expr)

inductive Stmt where
  | simple (s : Simple)
  | doLine (s : Simple)
  | ifLine (test : Expr) (s : Simple)
  | function (name : FunctionName) (params : List String) (body : List Stmt)
  | doBlock (body : List Stmt)
  | ifBlock (test : Expr) (body : List Stmt) (alternate : Alternate)
  | whileLoop (test : Expr) (body : List Stmt)
  | repeatUntil (body : List Stmt) (test : Expr)
  | forIn (names : List String) (iterator : Expr) (body : List Stmt)
  | forRange (name : String) (first last : Expr) (body : List Stmt)

inductive Alternate where
  | none
  | elseIf (test : Expr) (body : List Stmt) (alternate : Alternate)
  | otherwise (body : List Stmt)

end

instance : Inhabited Expr := ⟨.nil⟩

namespace Expr

/-- A variable that holds nothing is equal to `nil`. -/
def isNil (e : Expr) : Expr := .binary .eq e .nil

def negated (e : Expr) : Expr := .unary .not e

def callName (function : String) (arguments : List Expr) : Expr := .call (.name function) arguments

def immediately (level : Nat) (params : List String) (body : List Stmt) (arguments : List Expr) : Expr :=
  .call (.paren (.function level params body)) arguments

def list (items : List Expr) : Expr := .table (items.map .item)

def joined (op : BinaryOp) (first : Expr) (more : List Expr) : Expr := more.foldl (.binary op) first

end Expr

namespace Stmt

def localValue (name : String) (value : Expr) : Stmt := .simple (.local [name] [value])

def locals (names : List String) : Stmt := .simple (.local names [])

def assign (target value : Expr) : Stmt := .simple (.assign target value)

def call (value : Expr) : Stmt := .simple (.call value)

def ret (value : Expr) : Stmt := .simple (.ret [value])

def ifThen (test : Expr) (body : List Stmt) : Stmt := .ifBlock test body .none

end Stmt

end Retarget.Lua
