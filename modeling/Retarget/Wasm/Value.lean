import Retarget.Numeric.Plan
import Retarget.Wasm.Basic

/-!
# Expressions in WebAssembly

The code of an expression leaves one double on the stack, and the code of a condition leaves a truth value.
Intermediate values that are needed twice are kept in scratch locals after the slots of the function.
-/

namespace Retarget.Wasm

/-- A computation that generates code; it counts the scratch locals in use. -/
abbrev Gen := ReaderT NumericScope (StateT Nat (Except BackendError))

namespace Gen

def node (id : NodeId) : Gen Node := do
  liftM ((← read).module.find .wasm id)

def unsupported (node : Node) (reason : String) : Gen α := throw (node.unsupported .wasm reason)

def temp : Gen Nat := do
  let n ← get
  set (n + 1)
  return (← read).function.slotCount + n

def nan : Instr := .const (0.0 / 0.0)

def slot (node : Node) (binding : Option NodeId) : Gen Slot := do
  liftM ((← read).slot .wasm node binding)

def load (node : Node) : Slot → Gen Code
  | .local index => return [.localGet index]
  | .global index => return [.globalGet index]
  | .function _ => unsupported node "functions are not values here"

def store (node : Node) : Slot → Gen Code
  | .local index => return [.localTee index]
  | .global index => return [.globalSet index, .globalGet index]
  | .function _ => unsupported node "cannot assign to a function"

def truthy : Gen Code := do
  let t ← temp
  return [.localTee t, .const 0.0, .float .ne, .localGet t, .localGet t, .float .eq, .both]

def compare (node : Node) (op : BinaryOperator) : Gen FloatOp :=
  match op with
  | .eq | .strictEq => return .eq
  | .notEq | .strictNotEq => return .ne
  | .lt => return .lt
  | .ltEq => return .le
  | .gt => return .gt
  | .gtEq => return .ge
  | _ => unsupported node ("`" ++ op.symbol ++ "` is not numeric")

/-- Code that applies an operator to two doubles. The remainder is `a - trunc (a / b) * b`. -/
def arithmetic (node : Node) (op : BinaryOperator) : Gen Code := do
  match op with
  | .add => return [.float .add]
  | .sub => return [.float .sub]
  | .mul => return [.float .mul]
  | .div => return [.float .div]
  | .rem =>
    let a ← temp
    let b ← temp
    return [.localSet b, .localSet a, .localGet a, .localGet a, .localGet b, .float .div, .float .trunc,
      .localGet b, .float .mul, .float .sub]
  | .exp => unsupported node "`**` has no WebAssembly instruction"
  | op =>
    let op ← compare node op
    return [.float op, .toFloat]

def comparison? : Kind → Option (BinaryOperator × NodeId × NodeId)
  | .binary op left right => if op.isComparison then some (op, left, right) else none
  | _ => none

variable (r : NodeId → Gen Code)

def condition (id : NodeId) : Gen Code := do
  let node ← node id
  match comparison? node.kind with
  | some (op, left, right) =>
    let l ← r left
    let q ← r right
    let op ← compare node op
    return l ++ q ++ [.float op]
  | none =>
    let value ← r id
    return value ++ (← truthy)

def variableTarget (node : Node) (reason : String) (id : NodeId) : Gen (Node × Slot) := do
  let target ← Gen.node id
  match target.kind with
  | .identifier _ binding => return (target, ← slot target binding)
  | _ => unsupported node reason

def update (node : Node) (op : UpdateOperator) (before : Bool) (argument : NodeId) : Gen Code := do
  let (target, slot) ← variableTarget node "only variables can be updated" argument
  let step := match op with
    | .increment => FloatOp.add
    | .decrement => FloatOp.sub
  let load ← load target slot
  let store ← store target slot
  let change := [Instr.const 1.0, .float step]
  return if before then load ++ change ++ store else load ++ load ++ change ++ store ++ [.drop]

def assignment (node : Node) (op : AssignmentOperator) (targetId value : NodeId) : Gen Code := do
  let (target, slot) ← variableTarget node "only variables can be assigned" targetId
  let result ←
    if op = .assign then r value
    else match op.binary? with
      | some binary => do
        let load ← load target slot
        let value ← r value
        pure (load ++ value ++ (← arithmetic node binary))
      | none => unsupported node ("`" ++ op.symbol ++ "` is not supported")
  return result ++ (← store target slot)

def logical (op : LogicalOperator) (left right : NodeId) : Gen Code := do
  let l ← r left
  if op = .nullish then return l
  let kept ← temp
  let test ← truthy
  let q ← r right
  let (consequent, alternate) := if op = .and then (q, [.localGet kept]) else ([.localGet kept], q)
  return l ++ .localTee kept :: test ++ [.ifElse true consequent alternate]

def unary (node : Node) (op : UnaryOperator) (argument : NodeId) : Gen Code := do
  match op with
  | .neg => return (← r argument) ++ [.float .neg]
  | .plus => r argument
  | .not => return (← condition r argument) ++ [.isZero, .toFloat]
  | .void => return (← r argument) ++ [.drop, nan]
  | op => unsupported node ("`" ++ op.symbol ++ "` is not numeric")

/-- The instructions of a function of `Math`, after its arguments. -/
def intrinsicCode : Intrinsic → Code
  | .sqrt => [.float .sqrt]
  | .abs => [.float .abs]
  | .floor => [.float .floor]
  | .ceil => [.float .ceil]
  | .trunc => [.float .trunc]
  | .round => [.const 0.5, .float .add, .float .floor]
  | .min => [.float .min]
  | .max => [.float .max]
  | .pow => []

/-- The code of a call of a function of `Math`. -/
def intrinsicCall (node : Node) (i : Intrinsic) (items : List ListItem) : Gen Code := do
  if items.length != i.arity then
    unsupported node ("Math call expects " ++ toString i.arity ++ " argument(s)")
  if i = .pow then unsupported node "Math.pow has no WebAssembly instruction"
  let args ← items.mapM fun item => r item.value
  return args.flatten ++ intrinsicCode i

def argumentsCode (r : NodeId → Gen Code) : (arity : Nat) → List ListItem → Gen Code
  | arity, [] => return List.replicate arity nan
  | 0, item :: more => do
    let value ← r item.value
    return value ++ .drop :: (← argumentsCode r 0 more)
  | arity + 1, item :: more => do
    let value ← r item.value
    return value ++ (← argumentsCode r arity more)

def call (node : Node) (callee : NodeId) (items : List ListItem) : Gen Code := do
  let scope ← read
  if items.any (·.spread) then unsupported node "spread arguments need an array runtime"
  match scope.module.intrinsic? callee with
  | some i => intrinsicCall r node i items
  | none =>
    match (← Gen.node callee).kind with
    | .identifier _ binding =>
      match scope.slot? binding with
      | some (.function index) =>
        let args ← argumentsCode r (scope.plan.arity index) items
        return args ++ [.call index]
      | _ => unsupported node "callee is not a top-level function"
    | _ => unsupported node "only direct calls are supported"

def sequence (r : NodeId → Gen Code) (node : Node) : List NodeId → Gen Code
  | [] => unsupported node "empty sequence"
  | [last] => r last
  | id :: more => do
    let first ← r id
    return first ++ .drop :: (← sequence r node more)

/-- The code of an expression whose parts are generated by `r`. -/
def exprStep (id : NodeId) : Gen Code := do
  let node ← node id
  match node.kind with
  | .number value => return [.const value]
  | .boolean value => return [.const (if value then 1.0 else 0.0)]
  | .null => return [.const 0.0]
  | .undefined => return [nan]
  | .identifier _ binding =>
    match node.kind.globalNumber? with
    | some value => return [.const value]
    | none => load node (← slot node binding)
  | .member .. =>
    match (← read).module.mathConstant? id with
    | some value => return [.const value]
    | none => unsupported node "only Math constants are numeric members"
  | .binary op left right =>
    let l ← r left
    let q ← r right
    return l ++ q ++ (← arithmetic node op)
  | .logical op left right => logical r op left right
  | .unary op argument => unary r node op argument
  | .update op before argument => update node op before argument
  | .assign op target value => assignment r node op target value
  | .conditional test consequent alternate =>
    let test ← condition r test
    let consequent ← r consequent
    let alternate ← r alternate
    return test ++ [.ifElse true consequent alternate]
  | .call callee items _ => call r node callee items
  | .sequence expressions => sequence r node expressions
  | _ => unsupported node "outside the numeric subset"

/-- The code of an expression that is nested at most `depth` levels. -/
def expr : (depth : Nat) → NodeId → Gen Code
  | 0, id => throw (.cyclic .wasm id)
  | depth + 1, id => exprStep (expr depth) id

end Gen

end Retarget.Wasm
