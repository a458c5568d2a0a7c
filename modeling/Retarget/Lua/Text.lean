import Retarget.Binary64.Layout
import Retarget.Lua.Basic

/-!
# Words of Lua

Names, strings and numbers as they are written in Lua.
-/

namespace Retarget.Lua

def keywords : List String :=
  ["and", "break", "do", "else", "elseif", "end", "false", "for", "function", "goto", "if", "in", "local",
    "nil", "not", "or", "repeat", "return", "then", "true", "until", "while"]

/-- A name with every dollar sign written as `_S`. -/
def withoutDollars (name : String) : String :=
  String.ofList (name.toList.flatMap fun c => if c = '$' then ['_', 'S'] else [c])

def nameOf (name : String) : String :=
  let name := withoutDollars name
  if keywords.contains name || name == "self" then name ++ "_" else name

def isNameStart (c : Char) : Bool := c.isAlpha || c == '_'

def isNamePart (c : Char) : Bool := c.isAlphanum || c == '_'

def isIdentifier (name : String) : Bool :=
  match name.toList with
  | [] => false
  | c :: more => isNameStart c && more.all isNamePart && !keywords.contains name

def threeDigits (n : Nat) : List Char :=
  [Nat.digitChar (n / 100), Nat.digitChar (n / 10 % 10), Nat.digitChar (n % 10)]

def escape (c : Char) : List Char :=
  match c with
  | '\\' => ['\\', '\\']
  | '"' => ['\\', '"']
  | '\n' => ['\\', 'n']
  | '\r' => ['\\', 'r']
  | '\t' => ['\\', 't']
  | c => if c.toNat < 0x20 || c.toNat == 0x7f then '\\' :: threeDigits c.toNat else [c]

def quote (s : String) : String := "\"" ++ String.ofList (s.toList.flatMap escape) ++ "\""

def numberText (x : Float) : String :=
  if x.isNaN then "(0/0)"
  else if x.isInf then (if x > 0 then "math.huge" else "(-math.huge)")
  else
    match wholeNumber? x with
    | some n => toString n
    | none => FloatLayout.source.write x

def Expr.property (table : Expr) (name : String) : Expr :=
  if isIdentifier name then .field table name else .index table (.string name)

def Expr.firstChar? : Expr → Option Char
  | .nil => some 'n'
  | .bool value => some (if value then 't' else 'f')
  | .number value => (numberText value).toList.head?
  | .string _ => some '"'
  | .name s => s.toList.head?
  | .varargs => some '.'
  | .paren _ => some '('
  | .binary _ left _ => left.firstChar?.or (some ' ')
  | .unary op _ => op.symbol.toList.head?
  | .index base _ => base.firstChar?.or (some '[')
  | .field base _ => base.firstChar?.or (some '.')
  | .call callee _ => callee.firstChar?.or (some '(')
  | .method receiver _ _ => receiver.firstChar?.or (some ':')
  | .function .. => some 'f'
  | .table _ => some '\x7b'

def Expr.startsWithParen (e : Expr) : Bool := e.firstChar? == some '('

end Retarget.Lua
