import Retarget.Llvm.Block

/-!
# Expressions in LLVM

An expression becomes an operand, after the instructions that compute it. A condition becomes the number of the
result of a comparison.
-/

namespace Retarget.Llvm.Gen

def nan : Operand := .const (0.0 / 0.0)

def bindingName (m : Module) (id : NodeId) : String :=
  let name := match m.kind? id with
    | some (.parameter name) => name
    | some (.declarator name _) => name
    | _ => "v"
  name.map fun c => if c.isAlphanum || c == '_' then c else '_'

def addresses (s : NumericScope) : List Address :=
  s.function.params.map (fun id => .param (bindingName s.module id)) ++
    s.function.locals.map fun id => .variable (bindingName s.module id) id

def address (node : Node) (slot : Slot) : Gen Address := do
  let scope ← read
  match slot with
  | .local index => found (addresses scope)[index]?
  | .global index => found ((scope.plan.globals[index]?).map fun (_, name) => .global name)
  | .function _ => unsupported node "functions are not values here"
where
  found : Option Address → Gen Address
    | some address => return address
    | none => throw (.missingNode .llvm node.id)

def variableAddress (node : Node) (binding : Option NodeId) : Gen Address := do
  let slot ← liftM ((← read).slot .llvm node binding)
  address node slot

def truthy (value : Operand) : Gen Nat := define (.compare .unequal value (.const 0.0))

def compare (node : Node) (op : BinaryOperator) (left right : Operand) : Gen Nat := do
  let predicate ← match op with
    | .eq | .strictEq => pure Predicate.equal
    | .notEq | .strictNotEq => pure .different
    | .lt => pure .less
    | .ltEq => pure .lessEqual
    | .gt => pure .greater
    | .gtEq => pure .greaterEqual
    | _ => unsupported node ("`" ++ op.symbol ++ "` is not numeric")
  define (.compare predicate left right)

def arithmetic (node : Node) (op : BinaryOperator) (left right : Operand) : Gen Operand := do
  match op with
  | .add => value (.arithmetic .add left right)
  | .sub => value (.arithmetic .sub left right)
  | .mul => value (.arithmetic .mul left right)
  | .div => value (.arithmetic .div left right)
  | .rem => value (.arithmetic .rem left right)
  | .exp => value (.builtin .pow [left, right])
  | op =>
    let flag ← compare node op left right
    value (.toFloat flag)

variable (r : NodeId → Gen Operand)

def condition (id : NodeId) : Gen Nat := do
  let node ← node id
  let comparison? : Option (BinaryOperator × NodeId × NodeId) := match node.kind with
    | .binary op left right => if op.isComparison then some (op, left, right) else none
    | _ => none
  match comparison? with
  | some (op, left, right) =>
    let l ← r left
    let q ← r right
    compare node op l q
  | none => truthy (← r id)

def select (construct : Construct) (flag : Nat) (taken other : Gen Operand) : Gen Operand := do
  let takenLabel ← label construct .taken
  let otherLabel ← label construct .other
  let doneLabel ← label construct .done
  terminator (.branch flag takenLabel otherLabel)
  startBlock takenLabel
  let takenValue ← taken
  let takenFrom := (← get).block
  jump doneLabel
  startBlock otherLabel
  let otherValue ← other
  let otherFrom := (← get).block
  jump doneLabel
  startBlock doneLabel
  value (.phi takenValue takenFrom otherValue otherFrom)

def variableTarget (node : Node) (reason : String) (id : NodeId) : Gen Address := do
  let target ← Gen.node id
  match target.kind with
  | .identifier _ binding => variableAddress target binding
  | _ => unsupported node reason

def update (node : Node) (op : UpdateOperator) (before : Bool) (argument : NodeId) : Gen Operand := do
  let place ← variableTarget node "only variables can be updated" argument
  let old ← value (.load place)
  let step := match op with
    | .increment => Arithmetic.add
    | .decrement => Arithmetic.sub
  let new ← value (.arithmetic step old (.const 1.0))
  instruction (.store new place)
  return if before then new else old

def assignment (node : Node) (op : AssignmentOperator) (targetId valueId : NodeId) : Gen Operand := do
  let place ← variableTarget node "only variables can be assigned" targetId
  let result ←
    if op = .assign then r valueId
    else match op.binary? with
      | some binary => do
        let current ← value (.load place)
        let operand ← r valueId
        arithmetic node binary current operand
      | none => unsupported node ("`" ++ op.symbol ++ "` is not supported")
  instruction (.store result place)
  return result

def logical (op : LogicalOperator) (left right : NodeId) : Gen Operand := do
  let l ← r left
  match op with
  | .nullish => return l
  | .and => select .conjunction (← truthy l) (r right) (pure l)
  | .or => select .disjunction (← truthy l) (pure l) (r right)

def unary (node : Node) (op : UnaryOperator) (argument : NodeId) : Gen Operand := do
  match op with
  | .neg =>
    let operand ← r argument
    value (.negate operand)
  | .plus => r argument
  | .not =>
    let flag ← condition r argument
    let inverted ← define (.invert flag)
    value (.toFloat inverted)
  | .void =>
    let _ ← r argument
    return nan
  | op => unsupported node ("`" ++ op.symbol ++ "` is not numeric")

/-- The value of a call of a function of `Math`. -/
def intrinsicCall (node : Node) (i : Intrinsic) (items : List ListItem) : Gen Operand := do
  if items.length != i.arity then
    unsupported node ("Math call expects " ++ toString i.arity ++ " argument(s)")
  let args ← items.mapM fun item => r item.value
  match i with
  | .sqrt => value (.builtin .sqrt args)
  | .abs => value (.builtin .fabs args)
  | .floor => value (.builtin .floor args)
  | .ceil => value (.builtin .ceil args)
  | .trunc => value (.builtin .trunc args)
  | .round =>
    let shifted ← value (.arithmetic .add (args.headD nan) .half)
    value (.builtin .floor [shifted])
  | .min => value (.builtin .minimum args)
  | .max => value (.builtin .maximum args)
  | .pow => value (.builtin .pow args)

/-- The value of a call. Arguments beyond the parameters are dropped, and missing ones are undefined. -/
def call (node : Node) (callee : NodeId) (items : List ListItem) : Gen Operand := do
  let scope ← read
  if items.any (·.spread) then unsupported node "spread arguments need an array runtime"
  match scope.module.intrinsic? callee with
  | some i => intrinsicCall r node i items
  | none =>
    match (← Gen.node callee).kind with
    | .identifier _ binding =>
      let index ← match scope.slot? binding with
        | some (.function index) => pure index
        | _ => unsupported node "callee is not a top-level function"
      let function ← match scope.plan.functions[index]? with
        | some function => pure function
        | none => throw (.missingNode .llvm callee)
      let args ← items.mapM fun item => r item.value
      let arity := function.params.length
      value (.call function.name (args.take arity ++ List.replicate (arity - args.length) nan))
    | _ => unsupported node "only direct calls are supported"

def sequence (ids : List NodeId) : Gen Operand :=
  ids.foldlM (fun _ id => r id) nan

/-- The value of an expression whose parts are generated by `r`. -/
def exprStep (id : NodeId) : Gen Operand := do
  let node ← node id
  match node.kind with
  | .number value => return .const value
  | .boolean value => return .const (if value then 1.0 else 0.0)
  | .null => return .const 0.0
  | .undefined => return nan
  | .identifier _ binding =>
    match node.kind.globalNumber? with
    | some number => return .const number
    | none =>
      let place ← variableAddress node binding
      value (.load place)
  | .member .. =>
    match (← read).module.mathConstant? id with
    | some number => return .const number
    | none => unsupported node "only Math constants are numeric members"
  | .binary op left right =>
    let l ← r left
    let q ← r right
    arithmetic node op l q
  | .logical op left right => logical r op left right
  | .unary op argument => unary r node op argument
  | .update op before argument => update node op before argument
  | .assign op target value => assignment r node op target value
  | .conditional test consequent alternate =>
    let flag ← condition r test
    select .choice flag (r consequent) (r alternate)
  | .call callee items _ => call r node callee items
  | .sequence expressions => sequence r expressions
  | _ => unsupported node "outside the numeric subset"

/-- The value of an expression that is nested at most `depth` levels. -/
def expr : (depth : Nat) → NodeId → Gen Operand
  | 0, id => throw (.cyclic .llvm id)
  | depth + 1, id => exprStep (expr depth) id

end Retarget.Llvm.Gen
