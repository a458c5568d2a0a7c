/-!
# Operators

The operators of expressions, each with its symbol, and the classes of them that later stages tell apart.
-/

namespace Retarget

inductive BinaryOperator where
  | add | sub | mul | div | rem | exp
  | eq | notEq | strictEq | strictNotEq
  | lt | ltEq | gt | gtEq
  | bitAnd | bitOr | bitXor | shl | shr | ushr
  | isIn | instanceOf
  deriving DecidableEq, Repr, Inhabited

namespace BinaryOperator

def all : List BinaryOperator :=
  [.add, .sub, .mul, .div, .rem, .exp, .eq, .notEq, .strictEq, .strictNotEq, .lt, .ltEq, .gt, .gtEq,
    .bitAnd, .bitOr, .bitXor, .shl, .shr, .ushr, .isIn, .instanceOf]

def symbol : BinaryOperator → String
  | add => "+"
  | sub => "-"
  | mul => "*"
  | div => "/"
  | rem => "%"
  | exp => "**"
  | eq => "=="
  | notEq => "!="
  | strictEq => "==="
  | strictNotEq => "!=="
  | lt => "<"
  | ltEq => "<="
  | gt => ">"
  | gtEq => ">="
  | bitAnd => "&"
  | bitOr => "|"
  | bitXor => "^"
  | shl => "<<"
  | shr => ">>"
  | ushr => ">>>"
  | isIn => "in"
  | instanceOf => "instanceof"

def ofSymbol? (s : String) : Option BinaryOperator := all.find? (·.symbol == s)

def isComparison : BinaryOperator → Bool
  | eq | notEq | strictEq | strictNotEq | lt | ltEq | gt | gtEq | isIn | instanceOf => true
  | _ => false

def isArithmetic : BinaryOperator → Bool
  | add | sub | mul | div | rem | exp => true
  | _ => false

def isBitwise : BinaryOperator → Bool
  | bitAnd | bitOr | bitXor | shl | shr | ushr => true
  | _ => false

end BinaryOperator

/-- Operators that evaluate their right operand only if the left one does not decide. -/
inductive LogicalOperator where
  | and | or | nullish
  deriving DecidableEq, Repr, Inhabited

namespace LogicalOperator

def all : List LogicalOperator := [.and, .or, .nullish]

def symbol : LogicalOperator → String
  | and => "&&"
  | or => "||"
  | nullish => "??"

def ofSymbol? (s : String) : Option LogicalOperator := all.find? (·.symbol == s)

end LogicalOperator

inductive UnaryOperator where
  | neg | plus | not | bitNot | typeOf | void | delete
  deriving DecidableEq, Repr, Inhabited

namespace UnaryOperator

def all : List UnaryOperator := [.neg, .plus, .not, .bitNot, .typeOf, .void, .delete]

def symbol : UnaryOperator → String
  | neg => "-"
  | plus => "+"
  | not => "!"
  | bitNot => "~"
  | typeOf => "typeof"
  | void => "void"
  | delete => "delete"

def ofSymbol? (s : String) : Option UnaryOperator := all.find? (·.symbol == s)

end UnaryOperator

inductive UpdateOperator where
  | increment | decrement
  deriving DecidableEq, Repr, Inhabited

namespace UpdateOperator

def all : List UpdateOperator := [.increment, .decrement]

def symbol : UpdateOperator → String
  | increment => "++"
  | decrement => "--"

def ofSymbol? (s : String) : Option UpdateOperator := all.find? (·.symbol == s)

end UpdateOperator

inductive AssignmentOperator where
  | assign
  | addAssign | subAssign | mulAssign | divAssign | remAssign | expAssign
  | shlAssign | shrAssign | ushrAssign | bitAndAssign | bitOrAssign | bitXorAssign
  | andAssign | orAssign | nullishAssign
  deriving DecidableEq, Repr, Inhabited

namespace AssignmentOperator

def all : List AssignmentOperator :=
  [.assign, .addAssign, .subAssign, .mulAssign, .divAssign, .remAssign, .expAssign, .shlAssign,
    .shrAssign, .ushrAssign, .bitAndAssign, .bitOrAssign, .bitXorAssign, .andAssign, .orAssign,
    .nullishAssign]

def symbol : AssignmentOperator → String
  | assign => "="
  | addAssign => "+="
  | subAssign => "-="
  | mulAssign => "*="
  | divAssign => "/="
  | remAssign => "%="
  | expAssign => "**="
  | shlAssign => "<<="
  | shrAssign => ">>="
  | ushrAssign => ">>>="
  | bitAndAssign => "&="
  | bitOrAssign => "|="
  | bitXorAssign => "^="
  | andAssign => "&&="
  | orAssign => "||="
  | nullishAssign => "??="

def ofSymbol? (s : String) : Option AssignmentOperator := all.find? (·.symbol == s)

def binary? : AssignmentOperator → Option BinaryOperator
  | addAssign => some .add
  | subAssign => some .sub
  | mulAssign => some .mul
  | divAssign => some .div
  | remAssign => some .rem
  | expAssign => some .exp
  | shlAssign => some .shl
  | shrAssign => some .shr
  | ushrAssign => some .ushr
  | bitAndAssign => some .bitAnd
  | bitOrAssign => some .bitOr
  | bitXorAssign => some .bitXor
  | assign | andAssign | orAssign | nullishAssign => none

def logical? : AssignmentOperator → Option LogicalOperator
  | andAssign => some .and
  | orAssign => some .or
  | nullishAssign => some .nullish
  | _ => none

end AssignmentOperator

inductive DeclarationKind where
  | varKind | letKind | constKind
  deriving DecidableEq, Repr, Inhabited

namespace DeclarationKind

def all : List DeclarationKind := [.varKind, .letKind, .constKind]

def word : DeclarationKind → String
  | varKind => "var"
  | letKind => "let"
  | constKind => "const"

def ofWord? (s : String) : Option DeclarationKind := all.find? (·.word == s)

end DeclarationKind

inductive IterationKind where
  | values | keys
  deriving DecidableEq, Repr, Inhabited

namespace IterationKind

def all : List IterationKind := [.values, .keys]

def word : IterationKind → String
  | values => "values"
  | keys => "keys"

def ofWord? (s : String) : Option IterationKind := all.find? (·.word == s)

end IterationKind

inductive MethodKind where
  | method | getter | setter
  deriving DecidableEq, Repr, Inhabited

namespace MethodKind

def all : List MethodKind := [.method, .getter, .setter]

def word : MethodKind → String
  | method => "method"
  | getter => "get"
  | setter => "set"

def ofWord? (s : String) : Option MethodKind := all.find? (·.word == s)

end MethodKind

end Retarget
