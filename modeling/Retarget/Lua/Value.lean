import Retarget.Lua.Function

/-!
# Expressions in Lua

Expressions that assign, choose or run several steps become functions that are called at once. Lists count
from one in Lua, so a numeric index is raised by one. Operands are put in parentheses unless they are simple
or already start with one.
-/

namespace Retarget.Lua.Gen

def needsParens : Kind → Bool
  | .binary .. | .logical .. | .unary .. | .functionExpr _ | .arrow _ => true
  | .number value => value < 0
  | _ => false

variable (r : Generators) (here : Place) (id : NodeId)

def operand : Gen Expr := do
  let e ← r.expr here id
  let node ← node id
  return if needsParens node.kind && !e.startsWithParen then .paren e else e

def isBare : Kind → Bool
  | .identifier name binding => (Kind.identifier name binding).globalNumber?.isNone
  | .member .. | .call .. | .newExpr .. | .thisExpr | .superExpr => true
  | _ => false

def head : Gen Expr := do
  let e ← r.expr here id
  let node ← node id
  let starts := e.firstChar?
  return if isBare node.kind && starts != some '#' && starts != some '(' then e else .paren e

def operator? : BinaryOperator → Option BinaryOp
  | .add => some .add
  | .sub => some .sub
  | .mul => some .mul
  | .div => some .div
  | .exp => some .pow
  | .eq | .strictEq => some .eq
  | .notEq | .strictNotEq => some .ne
  | .lt => some .lt
  | .ltEq => some .le
  | .gt => some .gt
  | .gtEq => some .ge
  | .bitAnd => some .band
  | .bitOr => some .bor
  | .bitXor => some .bxor
  | .shl => some .shl
  | .ushr => some .shr
  | .rem | .shr | .isIn | .instanceOf => none

def needsBits (node : Node) : Gen Unit := do
  if (← read).options.version = .v51 then
    unsupported node "bitwise operators need Lua 5.3 or newer"

def binary (node : Node) (op : BinaryOperator) (left right : NodeId) : Gen Expr := do
  if op.isBitwise then needsBits node
  let joins ← if op = .add then
      pure ((← isString left) || (← isString right) || node.type.any (·.isString))
    else pure false
  let l ← operand r here left
  let q ← operand r here right
  if joins then return .binary .concat l q
  match operator? op with
  | some op => return .binary op l q
  | none =>
    match op with
    | .rem => return Helper.library "math" "fmod" [l, q]
    | .shr => return .binary .idiv l (.paren (.binary .shl (.number 1) q))
    | .isIn => return .paren (.binary .ne (.index q l) .nil)
    | _ => callHelper .instanceOf [l, q]

def indexKey : Gen Expr := do
  let node ← node id
  let literal? : Option Float := match node.kind with
    | .number value => if value.floor == value && value ≥ 0 then some value else none
    | _ => none
  match literal? with
  | some value => return .number (value + 1)
  | none =>
    let key ← r.expr here id
    if ← isNumber id then
      let key := match node.kind with
        | .logical .. | .binary .. => .paren key
        | _ => key
      return .binary .add key (.number 1)
    else return key

def isGlobal (name : String) : Kind → Bool
  | .identifier global none => global == name
  | _ => false

def mathMember (name : String) : Expr :=
  if name == "PI" then .field (.name "math") "pi"
  else if name == "E" then Helper.library "math" "exp" [.number 1]
  else Expr.property (.name "math") name

def member (node : Node) (object property : NodeId) (computed : Bool) : Gen Expr := do
  let base ← Gen.node object
  if computed then
    let table ← head r here object
    return .index table (← indexKey r here property)
  else
    let name ← propertyName property
    if base.kind = .superExpr then return Expr.property (← parent here node) name
    if isGlobal "Math" base.kind then return mathMember name
    let table ← head r here object
    return if name == "length" then .unary .length table else Expr.property table name

def target (r : Generators) (here : Place) (id : NodeId) : Gen Expr := do
  let node ← node id
  match node.kind with
  | .identifier name _ => return .name (nameOf name)
  | .member object property computed =>
    if !computed then
      if (← propertyName property) == "length" then unsupported node "assigning to `length`"
    member r here node object property computed
  | _ => unsupported node "not an assignment target"

/-- Elements after the first spread one, added to the list `__t` one after the other. -/
def appendItems (r : Generators) (here : Place) : List ListItem → Gen (List Stmt)
  | [] => return []
  | item :: more => do
    let list := Expr.name "__t"
    let next := Expr.index list (.binary .add (.unary .length list) (.number 1))
    let value ← r.expr here item.value
    let step : Stmt :=
      if item.spread then .forIn ["_", "__v"] (.callName "ipairs" [value]) [.assign next (.name "__v")]
      else .assign next value
    return step :: (← appendItems r here more)

def list (items : List ListItem) : Gen Expr := do
  if items.any (·.spread) then
    immediately here fun here => do
      let (front, rest) := items.span (!·.spread)
      let front ← front.mapM fun item => r.expr here item.value
      let steps ← appendItems r here rest
      return .localValue "__t" (.list front) :: steps ++ [.ret (.name "__t")]
  else return .list (← items.mapM fun item => r.expr here item.value)

/-- Arguments, after the receiver if there is one. A spread argument can only be the last one; with others
behind it all arguments are gathered in a list first. -/
def arguments (receiver : Option Expr) (items : List ListItem) : Gen (List Expr) := do
  if items.dropLast.any (·.spread) then
    let all ← list r here items
    return receiver.toList ++ [.call (← unpack) [all]]
  else
    let values ← items.mapM fun item => do
      let value ← r.expr here item.value
      if item.spread then return .call (← unpack) [value] else return value
    return receiver.toList ++ values

def consoleNames : List String := ["log", "info", "warn", "error", "debug"]

/-- A call of a function of the mathematical library; rounding needs a single argument. -/
def mathCall (name : String) (single : Bool) (args : List Expr) : Expr :=
  match single, args with
  | true, [arg] =>
    if name == "round" then Helper.library "math" "floor" [.binary .add arg (.number 0.5)]
    else if name == "trunc" then .paren (Helper.library "math" "modf" [arg])
    else .call (Expr.property (.name "math") name) args
  | _, _ => .call (Expr.property (.name "math") name) args

def globalCall (global name : String) (items : List ListItem) : Gen Expr := do
  let power? : Option (NodeId × NodeId) := match items with
    | [base, exponent] => if global == "Math" && name == "pow" then some (base.value, exponent.value) else none
    | _ => none
  match power? with
  | some (base, exponent) =>
    let base ← operand r here base
    return .paren (.binary .pow base (← operand r here exponent))
  | none =>
    let args ← arguments r here none items
    if global == "console" && consoleNames.contains name then return .callName "print" args
    if global == "Object" && name == "assign" then callHelper .assign args
    else if global == "Math" then return mathCall name (items.length = 1) args
    else return .call (Expr.property (.name (nameOf global)) name) args

def listCall? (object : NodeId) (name : String) (items : List ListItem) : Gen (Option Expr) := do
  let plain := !items.any (·.spread)
  match name, items with
  | "push", [item] =>
    if plain then
      let list ← r.expr here object
      return some (Helper.library "table" "insert" [list, ← r.expr here item.value])
    else return none
  | "pop", [] => return some (Helper.library "table" "remove" [← r.expr here object])
  | "join", [] => return some (Helper.library "table" "concat" [← r.expr here object, .string ","])
  | "join", [item] =>
    if plain then
      let list ← r.expr here object
      return some (Helper.library "table" "concat" [list, ← r.expr here item.value])
    else return none
  | "slice", items =>
    let list ← r.expr here object
    return some (← callHelper .slice (← arguments r here (some list) items))
  | _, _ => return none

def methodCall (object : NodeId) (name : String) (items : List ListItem) : Gen Expr := do
  match ← listCall? r here object name items with
  | some e => return e
  | none =>
    let receiver ← head r here object
    if isIdentifier name then return .method receiver name (← arguments r here none items)
    else return .call (.index receiver (.string name)) (← arguments r here (some receiver) items)

def call (node : Node) (callee : NodeId) (items : List ListItem) : Gen Expr := do
  let self := Expr.name "self"
  match (← Gen.node callee).kind with
  | .superExpr =>
    let parent ← parent here node
    return .call (.field parent "__init") (← arguments r here (some self) items)
  | .member object property false =>
    let name ← propertyName property
    match (← Gen.node object).kind with
    | .superExpr =>
      let parent ← parent here node
      return .call (Expr.property parent name) (← arguments r here (some self) items)
    | .identifier global none => globalCall r here global name items
    | _ => methodCall r here object name items
  | .member object property true =>
    let receiver ← head r here object
    let key ← indexKey r here property
    return .call (.index receiver key) (← arguments r here (some receiver) items)
  | _ =>
    let function ← head r here callee
    return .call function (← arguments r here none items)

def unary (node : Node) (op : UnaryOperator) (argument : NodeId) : Gen Expr := do
  match op with
  | .neg => return .unary .neg (← operand r here argument)
  | .plus => return .callName "tonumber" [← r.expr here argument]
  | .not => return .unary .not (← operand r here argument)
  | .bitNot =>
    needsBits node
    return .unary .bnot (← operand r here argument)
  | .typeOf => callHelper .typeOf [← r.expr here argument]
  | .void =>
    if (← Gen.node argument).kind.isLiteral then return .nil
    let value ← r.expr here argument
    immediately here fun _ => return [.localValue "_" value]
  | .delete =>
    match (← Gen.node argument).kind with
    | .member .. =>
      let place ← target r here argument
      immediately here fun _ => return [.assign place .nil, .ret (.bool true)]
    | _ => return .bool true

def templatePart : Gen (List Expr) := do
  match (← node id).kind with
  | .templateElement cooked _ => return if cooked == "" then [] else [.string cooked]
  | _ => return [.callName "tostring" [← r.expr here id]]

def template (parts : List NodeId) : Gen Expr := do
  match (← parts.mapM (templatePart r here)).flatten with
  | [] => return .string ""
  | first :: more => return .joined .concat first more

/-- A function value that is stored in a table, which takes its receiver, or any other value. -/
def storedValue : Gen Expr := do
  let kind := (← node id).kind
  match kind.function? with
  | some f => functionValue r here f (some (receiverOf kind))
  | none => r.expr here id

/-- A member of an object: an entry, or an object whose entries are copied. -/
inductive ObjectPart where
  | entry (e : Entry)
  | spread (e : Expr)

def objectPart : Gen ObjectPart := do
  let node ← node id
  match node.kind with
  | .property key value computed =>
    let value ← storedValue r here value
    if computed then return .entry (.keyed (← r.expr here key) value)
    let name ← propertyName key
    return .entry (if isIdentifier name then .named name value else .keyed (.string name) value)
  | .spread argument => return .spread (← r.expr here argument)
  | _ => unsupported node "expected an object member"

/-- The tables that are merged into an object: entries in a row form one table, and there is always one
before the first spread. -/
def tables (first : Bool) (current : List Entry) : List ObjectPart → List Expr
  | [] => if current.isEmpty then [] else [.table current]
  | .entry e :: more => tables first (current ++ [e]) more
  | .spread e :: more =>
    (if first || !current.isEmpty then [.table current] else []) ++ e :: tables false [] more

def object (properties : List NodeId) : Gen Expr := do
  let parts ← properties.mapM (objectPart r here)
  let entries := parts.filterMap fun
    | .entry e => some e
    | .spread _ => none
  if entries.length = parts.length then return .table entries
  else callHelper .assign (tables true [] parts)

def updateOp : UpdateOperator → BinaryOp
  | .increment => .add
  | .decrement => .sub

def updateStatement (op : UpdateOperator) (place value : Expr) : Stmt :=
  .assign place (.binary (updateOp op) value (.number 1))

def assignment (node : Node) (op : AssignmentOperator) (targetId value : NodeId) : Gen (List Stmt) := do
  let place ← target r here targetId
  match op.logical?, op.binary? with
  | some logical, _ =>
    let value ← r.expr here value
    let test := match logical with
      | .and => place
      | .or => place.negated
      | .nullish => place.isNil
    return [.ifLine test (.assign place value)]
  | none, some op => return [.assign place (← binary r here node op targetId value)]
  | none, none =>
    let _ ← Gen.node value
    match (← Gen.node targetId).kind with
    | .member .. => return [.assign place (← storedValue r here value)]
    | _ => return [.assign place (← r.expr here value)]

def logical (op : LogicalOperator) (left right : NodeId) : Gen Expr := do
  let l ← operand r here left
  let q ← operand r here right
  match op with
  | .and => return .binary .and l q
  | .or => return .binary .or l q
  | .nullish =>
    let v := Expr.name "__v"
    return .immediately here.level ["__v"] [.ifThen v.isNil [.ret q], .ret v] [l]

def sequence (r : Generators) (here : Place) : List NodeId → Gen (List Stmt)
  | [] => return []
  | [last] => do return [.ret (← r.expr here last)]
  | id :: more => do
    let first ← r.effect here id
    return first ++ (← sequence r here more)

/-- Generates an expression whose parts are generated by `r`. -/
def expr : Gen Expr := do
  let node ← node id
  match node.kind with
  | .number value => return .number value
  | .string value | .templateElement value _ => return .string value
  | .boolean value => return .bool value
  | .null | .undefined => return .nil
  | .template parts => template r here parts
  | .identifier name _ =>
    match node.kind.globalNumber? with
    | some value => return .number value
    | none => return .name (nameOf name)
  | .thisExpr => return .name "self"
  | .superExpr => parent here node
  | .binary op left right => binary r here node op left right
  | .logical op left right => logical r here op left right
  | .unary op argument => unary r here node op argument
  | .update op before argument =>
    let place ← target r here argument
    let v := Expr.name "__v"
    let steps := if before then [updateStatement op place place, .ret place]
      else [.localValue "__v" place, updateStatement op place v, .ret v]
    immediately here fun _ => return steps
  | .assign op targetId value =>
    immediately here fun here => do
      let steps ← assignment r here node op targetId value
      return steps ++ [.ret (← target r here targetId)]
  | .conditional test consequent alternate =>
    immediately here fun here => do
      let test ← r.expr here test
      let consequent ← r.expr here.deeper consequent
      let alternate ← r.expr here alternate
      return [.ifThen test [.ret consequent], .ret alternate]
  | .call callee items _ => call r here node callee items
  | .newExpr callee items _ =>
    let constructor ← head r here callee
    return .call (.field constructor "new") (← arguments r here none items)
  | .member base property computed => member r here node base property computed
  | .array elements _ => list r here elements
  | .object properties => object r here properties
  | .sequence [] => return .nil
  | .sequence expressions => immediately here fun here => sequence r here expressions
  | .awaitExpr argument => callHelper .await [← r.expr here argument]
  | .functionExpr f | .arrow f => functionValue r here f none
  | .classExpr c =>
    immediately here fun here => do
      let (name, statements) ← classStatements r here c true
      return statements ++ [.ret (.name name)]
  | _ => unsupported node "not an expression"

def effect : Gen (List Stmt) := do
  let node ← node id
  match node.kind with
  | .assign op targetId value => assignment r here node op targetId value
  | .update op _ argument =>
    let place ← target r here argument
    return [updateStatement op place place]
  | .sequence expressions => return (← expressions.mapM (r.effect here)).flatten
  | .call .. | .newExpr .. | .awaitExpr _ =>
    let e ← expr r here id
    return [if e.startsWithParen then .localValue "_" e else .call e]
  | _ => return [.localValue "_" (← expr r here id)]

end Retarget.Lua.Gen
