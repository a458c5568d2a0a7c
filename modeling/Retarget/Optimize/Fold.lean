import Retarget.Binary64.Basic
import Retarget.Optimize.Edit

/-!
# Constant folding

Operators whose operands are literals are replaced by their result. A number is folded only if it is finite,
so `1 / 0` stays as it is.
-/

namespace Retarget.Fold

def number? (x : Float) : Option Kind := if x.isFinite then some (.number x) else none

def numbers? (operator : BinaryOperator) (a b : Float) : Option Kind :=
  match operator with
  | .add => number? (a + b)
  | .sub => number? (a - b)
  | .mul => number? (a * b)
  | .div => number? (a / b)
  | .rem => number? (remainder a b)
  | .exp => number? (a ^ b)
  | .eq | .strictEq => some (.boolean (a == b))
  | .notEq | .strictNotEq => some (.boolean (a != b))
  | .lt => some (.boolean (a < b))
  | .ltEq => some (.boolean (a ≤ b))
  | .gt => some (.boolean (a > b))
  | .gtEq => some (.boolean (a ≥ b))
  | _ => none

def equality? [DecidableEq α] (operator : BinaryOperator) (a b : α) : Option Kind :=
  match operator with
  | .eq | .strictEq => some (.boolean (a = b))
  | .notEq | .strictNotEq => some (.boolean (a ≠ b))
  | _ => none

def binary? (operator : BinaryOperator) : Kind → Kind → Option Kind
  | .number a, .number b => numbers? operator a b
  | .string a, .string b =>
    if operator = .add then some (.string (a ++ b)) else equality? operator a b
  | .boolean a, .boolean b => equality? operator a b
  | _, _ => none

def unary? : UnaryOperator → Kind → Option Kind
  | .neg, .number x => number? (-x)
  | .plus, .number x => number? x
  | .not, kind => kind.truthiness?.map fun t => .boolean !t
  | .typeOf, .number _ => some (.string "number")
  | .typeOf, .string _ => some (.string "string")
  | .typeOf, .boolean _ => some (.string "boolean")
  | _, _ => none

def plan (b : Builder) : Kind → Option Edit
  | .binary operator left right => do
    return .literal (← binary? operator (← b.kind? left) (← b.kind? right))
  | .unary operator argument => do return .literal (← unary? operator (← b.kind? argument))
  | _ => none

def run (b : Builder) : Edited := b.editAll plan

end Retarget.Fold
