/-!
# WebAssembly modules

The part of WebAssembly that is generated. Instructions are structured: a block holds its body, and a branch
names the blocks it leaves by their depth. All values are doubles, apart from truth values, which are 32-bit
integers.
-/

namespace Retarget.Wasm

inductive FloatOp where
  | eq | ne | lt | gt | le | ge
  | abs | neg | ceil | floor | trunc | sqrt
  | add | sub | mul | div | min | max
  deriving DecidableEq, Repr, Inhabited

inductive Instr where
  | const (value : Float)
  | localGet (index : Nat)
  | localSet (index : Nat)
  | localTee (index : Nat)
  | globalGet (index : Nat)
  | globalSet (index : Nat)
  | float (op : FloatOp)
  | isZero
  | both
  | toFloat
  | drop
  | call (function : Nat)
  | ret
  | br (depth : Nat)
  | brIf (depth : Nat)
  | block (body : List Instr)
  | loop (body : List Instr)
  | ifThen (body : List Instr)
  | ifElse (valued : Bool) (consequent alternate : List Instr)
  deriving Repr, Inhabited

abbrev Code := List Instr

/-- The type of a function whose parameters and result are doubles. -/
structure Signature where
  params : Nat
  returns : Bool
  deriving DecidableEq, Repr, Inhabited

structure Body where
  locals : Nat
  code : Code
  deriving Repr, Inhabited

structure Binary where
  signatures : List Signature
  functions : List Nat
  globals : Nat
  exports : List (String × Nat)
  start : Option Nat
  bodies : List Body
  deriving Repr, Inhabited

end Retarget.Wasm
