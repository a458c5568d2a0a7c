import Retarget.Mlir.Basic
import Retarget.Target.Module

/-!
# Building MLIR operations

Operations are added to the end of the region that is being built, and every result is new.
-/

namespace Retarget.Mlir

structure Draft where
  ops : Array Op := #[]
  next : Value := 0
  deriving Repr, Inhabited

abbrev Gen := ReaderT Module (StateT Draft (Except BackendError))

structure Generators where
  expr : NodeId → Gen Value
  stmt : NodeId → Gen Unit

namespace Gen

variable (r : Generators) (id : NodeId)

def node : Gen Node := do
  liftM ((← read).find .mlir id)

def unsupported (node : Node) (reason : String) : Gen α := throw (node.unsupported .mlir reason)

def push (op : Op) : Gen Unit := modify fun d => { d with ops := d.ops.push op }

def define (op : Op) : Gen Value := do
  let result := (← get).next
  modify fun d => { d with next := result + 1 }
  push (.mk { op.head with result := some result } op.regions)
  return result

def region (build : Gen Unit) : Gen (List Op) := do
  let outside := (← get).ops
  modify fun d => { d with ops := #[] }
  build
  let inside := (← get).ops
  modify fun d => { d with ops := outside }
  return inside.toList

def nameWithin : (depth : Nat) → NodeId → Gen String
  | 0, id => throw (.cyclic .mlir id)
  | depth + 1, id => do
    let node ← node id
    match node.kind with
    | .parameter name => return name
    | .declarator name _ => return name
    | .string value => return value
    | .rest argument => nameWithin depth argument
    | _ => unsupported node "expected a name"

def name : Gen String := do
  nameWithin (← read).levels id

def nameAttr (key : String) (id : NodeId) : Gen Attrs := return [(key, .string (← name id))]

def body : Gen (List Op) := do
  let ids ← liftM ((← read).statementsOf .mlir id)
  region (ids.forM r.stmt)

def body? : Option NodeId → Gen (List Op)
  | some id => body r id
  | none => return []

def yielding : Gen (List Op) :=
  region do
    let value ← r.expr id
    push (.mk { opcode := .yield, operands := [value] } [])

def expr? : Option NodeId → Gen (List Value)
  | some id => return [← r.expr id]
  | none => return []

def effect : Gen Unit := do
  let _ ← r.expr id

def function (opcode : Opcode) (f : FunctionNode) : Gen Op := do
  let params ← f.params.mapM name
  let rest ← match f.rest with
    | some rest => nameAttr "rest" rest
    | none => pure []
  let attrs := f.name.toList.map (fun name => ("name", Attr.string name)) ++
    [("params", Attr.strings params)] ++ rest ++ (if f.isAsync then [("async", .boolean true)] else [])
  return .mk { opcode, attrs } [← body r f.body]

def functionOf (opcode : Opcode) (id : NodeId) : Gen Op := do
  let node ← node id
  match node.kind.function? with
  | some f => function r opcode f
  | none => unsupported node "expected a function"

def keyAndValue (key value : NodeId) (computed : Bool) : Gen (List Value × Attrs) := do
  let (operands, attrs) ←
    if computed then do
      let key ← r.expr key
      pure ([key], [])
    else do
      let attrs ← nameAttr "key" key
      pure ([], attrs)
  let value ← r.expr value
  return (operands ++ [value], attrs)

def methodDefinition : Gen Unit := do
  let node ← node id
  match node.kind with
  | .method key value kind isStatic _ =>
    let op ← functionOf r .method value
    push (op.withAttrs [("key", .string key), ("kind", .string kind.word), ("static", .boolean isStatic)])
  | _ => unsupported node "expected a MethodDefinition"

def staticProperty : Gen Unit := do
  let node ← node id
  match node.kind with
  | .property key value computed =>
    let (operands, attrs) ← keyAndValue r key value computed
    push (.mk { opcode := .staticProperty, operands, attrs } [])
  | _ => unsupported node "expected a Property"

def classBody (c : ClassNode) : Gen Op := do
  let operands ← expr? r c.superClass
  let members ← region do
    push (← functionOf r .initializer c.constructor)
    c.methods.forM (methodDefinition r)
    c.staticProperties.forM (staticProperty r)
  return .mk { opcode := .classBody, operands, attrs := [("name", .string c.name)] } [members]

end Gen

end Retarget.Mlir
