import Retarget.Mlir.Build

/-!
# Expressions in MLIR

The parts of an expression are built first, and its own operation has the result. What is evaluated only in some
runs is a region of its own.
-/

namespace Retarget.Mlir.Gen

variable (r : Generators) (id : NodeId)

def place : Gen (List Value × Attrs) := do
  let node ← node id
  match node.kind with
  | .identifier name _ => return ([], [("name", .string name)])
  | .member object property false =>
    let object ← r.expr object
    return ([object], ← nameAttr "property" property)
  | .member object property true =>
    let object ← r.expr object
    let key ← r.expr property
    return ([object, key], [("computed", .boolean true)])
  | _ => unsupported node "not an assignment target"

def list (items : List ListItem) : Gen (List Value) := items.mapM fun item => r.expr item.value

def spreadAttr (items : List ListItem) : Attrs :=
  match (items.zipIdx.filter (·.1.spread)).map (·.2) with
  | [] => []
  | places => [("spread", .places places)]

def templateParts (r : Generators) : List NodeId → Gen (List String × List Value)
  | [] => return ([], [])
  | id :: more => do
    match (← node id).kind with
    | .templateElement cooked _ =>
      let (texts, values) ← templateParts r more
      return (cooked :: texts, values)
    | _ =>
      let value ← r.expr id
      let (texts, values) ← templateParts r more
      return (texts, value :: values)

def objectMember : Gen Unit := do
  let node ← node id
  match node.kind with
  | .property key value computed =>
    let (operands, attrs) ← keyAndValue r key value computed
    push (.mk { opcode := .property, operands, attrs } [])
  | .spread argument =>
    let value ← r.expr argument
    push (.mk { opcode := .spread, operands := [value] } [])
  | _ => unsupported node "expected an object member"

def callLike (opcode : Opcode) (callee : NodeId) (items : List ListItem) : Gen Op := do
  let callee ← r.expr callee
  let args ← list r items
  return .mk { opcode, operands := callee :: args, attrs := spreadAttr items } []

def member (object property : NodeId) (computed : Bool) : Gen Op := do
  let object ← r.expr object
  if computed then
    let key ← r.expr property
    return .mk { opcode := .getIndex, operands := [object, key] } []
  else
    return .mk { opcode := .getProperty, operands := [object], attrs := ← nameAttr "name" property } []

/-- The operation of an expression whose parts are built by `r`. -/
def exprOp (node : Node) : Gen Op := do
  let constant (value : Attr) : Op := .mk (Head.constant value) []
  match node.kind with
  | .number value => return constant (.number value)
  | .string value => return constant (.string value)
  | .templateElement cooked _ => return constant (.string cooked)
  | .boolean value => return constant (.boolean value)
  | .null => return constant .null
  | .undefined => return constant .undefined
  | .template parts =>
    let (texts, operands) ← templateParts r parts
    return .mk { opcode := .template, operands, attrs := [("quasis", .strings texts)] } []
  | .identifier name _ =>
    match node.kind.globalNumber? with
    | some value => return constant (.number value)
    | none => return .mk { opcode := .reference, attrs := [("name", .string name)] } []
  | .thisExpr => return .mk { opcode := .thisValue } []
  | .superExpr => return .mk { opcode := .superValue } []
  | .binary operator left right =>
    let l ← r.expr left
    let q ← r.expr right
    return .mk { opcode := .binary operator, operands := [l, q] } []
  | .logical operator left right =>
    let l ← r.expr left
    let attrs := [("operator", Attr.string operator.symbol)]
    return .mk { opcode := .logical, operands := [l], attrs } [← yielding r right]
  | .unary operator argument =>
    let value ← r.expr argument
    return .mk { opcode := .unary operator, operands := [value] } []
  | .update operator before argument =>
    let (operands, attrs) ← place r argument
    let more := [("operator", Attr.string operator.symbol), ("prefix", .boolean before)]
    return .mk { opcode := .update, operands, attrs := attrs ++ more } []
  | .assign operator target value =>
    let (operands, attrs) ← place r target
    let value ← r.expr value
    let more := [("operator", Attr.string operator.symbol)]
    return .mk { opcode := .assign, operands := operands ++ [value], attrs := attrs ++ more } []
  | .conditional test consequent alternate =>
    let condition ← r.expr test
    let consequent ← yielding r consequent
    let alternate ← yielding r alternate
    return .mk { opcode := .select, operands := [condition] } [consequent, alternate]
  | .call callee items _ => callLike r .call callee items
  | .newExpr callee items _ => callLike r .construct callee items
  | .member object property computed => member r object property computed
  | .array items _ =>
    let values ← list r items
    return .mk { opcode := .array, operands := values, attrs := spreadAttr items } []
  | .object properties => return .mk { opcode := .object } [← region (properties.forM (objectMember r))]
  | .sequence expressions => return .mk { opcode := .sequence, operands := ← expressions.mapM r.expr } []
  | .awaitExpr argument => return .mk { opcode := .await, operands := [← r.expr argument] } []
  | .functionExpr f => function r .closure f
  | .arrow f => return (← function r .closure f).withAttrs [("arrow", .boolean true)]
  | .classExpr c => classBody r c
  | _ => unsupported node "not an expression"

/-- Builds an expression whose parts are built by `r`. -/
def exprStep : Gen Value := do
  let node ← node id
  let op ← exprOp r node
  define op

end Retarget.Mlir.Gen
