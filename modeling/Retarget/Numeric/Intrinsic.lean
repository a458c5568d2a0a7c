import Retarget.Module.Basic

/-!
# The mathematical library

The members of `Math` that the numeric targets know. They are recognized only if `Math` is the global of that
name.
-/

namespace Retarget

/-- A function of `Math`. -/
inductive Intrinsic where
  | sqrt | abs | floor | ceil | trunc | round | min | max | pow
  deriving DecidableEq, Repr, Inhabited

namespace Intrinsic

def all : List Intrinsic := [.sqrt, .abs, .floor, .ceil, .trunc, .round, .min, .max, .pow]

def name : Intrinsic → String
  | sqrt => "sqrt"
  | abs => "abs"
  | floor => "floor"
  | ceil => "ceil"
  | trunc => "trunc"
  | round => "round"
  | min => "min"
  | max => "max"
  | pow => "pow"

def ofName? (s : String) : Option Intrinsic := all.find? (·.name == s)

def arity : Intrinsic → Nat
  | min | max | pow => 2
  | _ => 1

end Intrinsic

namespace Module

/-- The name of a member of the global `Math`. -/
def mathMember? (m : Module) (id : NodeId) : Option String :=
  match m.kind? id with
  | some (.member object property false) =>
    match m.kind? object, m.kind? property with
    | some (.identifier "Math" none), some (.string name) => some name
    | _, _ => none
  | _ => none

/-- The function of `Math` that a node stands for. -/
def intrinsic? (m : Module) (id : NodeId) : Option Intrinsic := (m.mathMember? id).bind Intrinsic.ofName?

/-- The constant of `Math` that a node stands for. -/
def mathConstant? (m : Module) (id : NodeId) : Option Float :=
  match m.mathMember? id with
  | some "PI" => some 3.141592653589793
  | some "E" => some 2.718281828459045
  | some "LN2" => some 0.6931471805599453
  | some "SQRT2" => some 1.4142135623730951
  | _ => none

end Module

end Retarget
