import Mathlib.Data.List.Basic
import Retarget.Wasm.Basic

/-!
# Typing of WebAssembly code

The validation rules of WebAssembly for the instructions that are generated. An instruction takes operands
from the top of the stack and leaves results there; the top is the last element of a list of types. After an
unconditional jump the stack may hold anything, so `br` and `ret` leave any types.

* `Instr.HasType` and `Code.HasType` are the rules for an instruction and for instructions in a row.
* `Binary.Valid` is the validity of a module: all its indices are in range, its bodies have the types that
  their functions are declared with, and no two exports have the same name.
-/

namespace Retarget.Wasm

inductive ValType where
  | f64 | i32
  deriving DecidableEq, Repr

structure Context where
  locals : Nat
  globals : Nat
  functions : List Signature
  labels : List (List ValType)
  result : List ValType

def Context.inside (C : Context) (label : List ValType) : Context := { C with labels := label :: C.labels }

def Signature.operands (s : Signature) : List ValType := List.replicate s.params .f64

def Signature.results (s : Signature) : List ValType := if s.returns then [.f64] else []

def FloatOp.operands : FloatOp → List ValType
  | abs | neg | ceil | floor | trunc | sqrt => [.f64]
  | eq | ne | lt | gt | le | ge | add | sub | mul | div | min | max => [.f64, .f64]

def FloatOp.result : FloatOp → ValType
  | eq | ne | lt | gt | le | ge => .i32
  | abs | neg | ceil | floor | trunc | sqrt | add | sub | mul | div | min | max => .f64

mutual

/-- The types that an instruction takes from the stack and leaves there. -/
inductive Instr.HasType : Context → Instr → List ValType → List ValType → Prop
  | const {C value} : Instr.HasType C (.const value) [] [.f64]
  | localGet {C i} (h : i < C.locals) : Instr.HasType C (.localGet i) [] [.f64]
  | localSet {C i} (h : i < C.locals) : Instr.HasType C (.localSet i) [.f64] []
  | localTee {C i} (h : i < C.locals) : Instr.HasType C (.localTee i) [.f64] [.f64]
  | globalGet {C i} (h : i < C.globals) : Instr.HasType C (.globalGet i) [] [.f64]
  | globalSet {C i} (h : i < C.globals) : Instr.HasType C (.globalSet i) [.f64] []
  | float {C op} : Instr.HasType C (.float op) op.operands [op.result]
  | isZero {C} : Instr.HasType C .isZero [.i32] [.i32]
  | both {C} : Instr.HasType C .both [.i32, .i32] [.i32]
  | toFloat {C} : Instr.HasType C .toFloat [.i32] [.f64]
  | drop {C t} : Instr.HasType C .drop [t] []
  | call {C i sig} (h : C.functions[i]? = some sig) : Instr.HasType C (.call i) sig.operands sig.results
  | ret {C ts us} : Instr.HasType C .ret (ts ++ C.result) us
  | br {C l label ts us} (h : C.labels[l]? = some label) : Instr.HasType C (.br l) (ts ++ label) us
  | brIf {C l label} (h : C.labels[l]? = some label) : Instr.HasType C (.brIf l) (label ++ [.i32]) label
  | block {C body} (h : Code.HasType (C.inside []) body [] []) : Instr.HasType C (.block body) [] []
  | loop {C body} (h : Code.HasType (C.inside []) body [] []) : Instr.HasType C (.loop body) [] []
  | ifThen {C body} (h : Code.HasType (C.inside []) body [] []) : Instr.HasType C (.ifThen body) [.i32] []
  | ifElse {C valued consequent alternate ts} (hts : ts = if valued then [ValType.f64] else [])
      (hc : Code.HasType (C.inside ts) consequent [] ts) (ha : Code.HasType (C.inside ts) alternate [] ts) :
      Instr.HasType C (.ifElse valued consequent alternate) [.i32] ts

/-- The types that code takes from the stack and leaves there; each instruction works on the top of the
stack and leaves what is below alone. -/
inductive Code.HasType : Context → Code → List ValType → List ValType → Prop
  | nil {C ts} : Code.HasType C [] ts ts
  | cons {C instr code ts us vs} (below : List ValType) (head : Instr.HasType C instr ts us)
      (tail : Code.HasType C code (below ++ us) vs) : Code.HasType C (instr :: code) (below ++ ts) vs

end

namespace Code

variable {C : Context} {a b : Code} {ts us vs : List ValType} {i : Instr}

theorem HasType.single (h : Instr.HasType C i ts us) (below : List ValType) :
    Code.HasType C [i] (below ++ ts) (below ++ us) := .cons below h .nil

theorem HasType.append (ha : Code.HasType C a ts us) (hb : Code.HasType C b us vs) : Code.HasType C (a ++ b) ts vs := by
  induction a generalizing ts with
  | nil =>
    cases ha
    exact hb
  | cons i a ih =>
    cases ha with
    | cons below head tail => exact .cons below head (ih tail)

theorem HasType.frame (h : Code.HasType C a ts us) (below : List ValType) :
    Code.HasType C a (below ++ ts) (below ++ us) := by
  induction a generalizing ts with
  | nil =>
    cases h
    exact .nil
  | cons i a ih =>
    cases h with
    | cons rest head tail =>
      rw [← List.append_assoc]
      refine .cons (below ++ rest) head ?_
      rw [List.append_assoc]
      exact ih tail

theorem HasType.snoc (h : Code.HasType C a ts us) (hi : Instr.HasType C i us vs) : Code.HasType C (a ++ [i]) ts vs := by
  exact h.append (HasType.single hi [])

end Code

/-! ## Modules -/

namespace Binary

def type? (b : Binary) (function : Nat) : Option Signature :=
  (b.functions[function]?).bind fun i => b.signatures[i]?

def types (b : Binary) : List Signature := b.functions.filterMap fun i => b.signatures[i]?

/-- The context of the body of a function. The body itself counts as a block that can be left with the
result. -/
def context (b : Binary) (sig : Signature) (body : Body) : Context where
  locals := sig.params + body.locals
  globals := b.globals
  functions := b.types
  labels := [sig.results]
  result := sig.results

structure Valid (b : Binary) : Prop where
  type_in_range : ∀ i ∈ b.functions, i < b.signatures.length
  length_eq : b.bodies.length = b.functions.length
  body_hasType : ∀ i sig body, b.type? i = some sig → b.bodies[i]? = some body →
    Code.HasType (b.context sig body) body.code [] sig.results
  start_type : ∀ i, b.start = some i → b.type? i = some ⟨0, false⟩
  export_in_range : ∀ e ∈ b.exports, e.2 < b.functions.length
  export_nodup : (b.exports.map Prod.fst).Nodup

end Binary

end Retarget.Wasm
