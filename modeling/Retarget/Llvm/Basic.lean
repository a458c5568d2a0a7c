import Retarget.Numeric.Intrinsic

/-!
# LLVM programs

The part of LLVM that is generated. A function is a row of lines: labels, instructions and terminators. Its
unnamed values are numbered, its variables live in named slots, and all values are doubles apart from the
results of comparisons.
-/

namespace Retarget.Llvm

inductive Construct where
  | branch | whileLoop | doLoop | forLoop | conjunction | disjunction | choice
  deriving DecidableEq, Repr, Inhabited

inductive Part where
  | taken | other | test | body | update | done
  deriving DecidableEq, Repr, Inhabited

/-- The label of a block. Apart from the first, labels of a function are told apart by their numbers. -/
inductive Label where
  | entry
  | dead (number : Nat)
  | part (construct : Construct) (part : Part) (number : Nat)
  deriving DecidableEq, Repr, Inhabited

inductive Operand where
  | const (value : Float)
  | value (number : Nat)
  | arg (index : Nat)
  | half
  deriving Repr, Inhabited

inductive Address where
  | param (name : String)
  | variable (name : String) (id : NodeId)
  | global (name : String)
  deriving DecidableEq, Repr, Inhabited

inductive Arithmetic where
  | add | sub | mul | div | rem
  deriving DecidableEq, Repr, Inhabited

/-- Comparisons; all are false of NaN, apart from `different`, which is true of it. -/
inductive Predicate where
  | equal | different | less | lessEqual | greater | greaterEqual
  | unequal
  deriving DecidableEq, Repr, Inhabited

inductive Builtin where
  | ceil | fabs | floor | maximum | minimum | pow | sqrt | trunc
  deriving DecidableEq, Repr, Inhabited

/-- What a numbered value is computed by. Results of comparisons are named by their numbers. -/
inductive Computation where
  | load (source : Address)
  | negate (value : Operand)
  | arithmetic (op : Arithmetic) (left right : Operand)
  | compare (predicate : Predicate) (left right : Operand)
  | invert (flag : Nat)
  | toFloat (flag : Nat)
  | phi (first : Operand) (firstFrom : Label) (second : Operand) (secondFrom : Label)
  | call (function : String) (args : List Operand)
  | builtin (function : Builtin) (args : List Operand)
  deriving Repr, Inhabited

inductive Instr where
  | allocate (place : Address)
  | store (value : Operand) (target : Address)
  | define (number : Nat) (computation : Computation)
  deriving Repr, Inhabited

inductive Terminator where
  | jump (target : Label)
  | branch (flag : Nat) (taken other : Label)
  | ret (value : Operand)
  | retVoid
  deriving Repr, Inhabited

inductive Line where
  | label (label : Label)
  | instr (instr : Instr)
  | terminator (terminator : Terminator)
  | comment (line : Nat)
  deriving Repr, Inhabited

structure Function where
  name : String
  params : Nat
  isInit : Bool
  lines : List Line
  deriving Repr, Inhabited

structure Program where
  source : String
  triple : String
  level : Nat
  globals : List String
  functions : List Function
  deriving Repr, Inhabited

namespace Builtin

def all : List Builtin := [.ceil, .fabs, .floor, .maximum, .minimum, .pow, .sqrt, .trunc]

def arity : Builtin → Nat
  | pow | minimum | maximum => 2
  | _ => 1

end Builtin

def Line.builtin? : Line → Option Builtin
  | instr (.define _ (.builtin function _)) => some function
  | _ => none

def Program.builtins (p : Program) : List Builtin :=
  let called := p.functions.flatMap fun f => f.lines.filterMap Line.builtin?
  Builtin.all.filter called.contains

end Retarget.Llvm
