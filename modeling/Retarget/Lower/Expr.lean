import Retarget.Lower.Class

/-!
# Expressions

Every expression becomes one node, with the nodes of its parts, and the type that is known for it.
-/

namespace Retarget

open Syntax

def binaryType (operator : BinaryOperator) (left right : Option TypeDescriptor) : Option TypeDescriptor :=
  if operator.isComparison then some .boolean
  else if operator = .add then
    if left.any (·.isString) || right.any (·.isString) then some .string
    else if left.any (·.isNumber) && right.any (·.isNumber) then some .number
    else none
  else some .number

def unaryType : UnaryOperator → TypeDescriptor
  | .neg | .plus | .bitNot => .number
  | .not | .delete => .boolean
  | .typeOf => .string
  | .void => .primitive "undefined"

namespace LowerM

def lowerIdentifier (id : Identifier) : LowerM NodeId := do
  match ← resolve? id.name with
  | some binding => typed (.identifier id.name (some binding)) id.pos (← get).bindingTypes[binding]?
  | none =>
    if id.name == "undefined" then node .undefined id.pos
    else
      let type := if id.name == "NaN" || id.name == "Infinity" then some .number else none
      typed (.identifier id.name none) id.pos type

def lowerLiteral (lit : Literal) : LowerM NodeId := do
  if lit.regex.isSome then unhandled "RegExpLiteral" lit.pos
  if lit.bigint.isSome then unhandled "BigIntLiteral" lit.pos
  match lit.value with
  | .num n => typed (.number n.toFloat) lit.pos (some .number)
  | .str s => typed (.string s) lit.pos (some .string)
  | .bool b => typed (.boolean b) lit.pos (some .boolean)
  | .null => typed .null lit.pos (some (.primitive "null"))
  | value => malformed "Literal" ("unexpected literal value " ++ value.compact) lit.pos

def templateElement (quasi : TemplateElement) : LowerM NodeId :=
  node (.templateElement (quasi.cooked.getD quasi.raw) quasi.raw) quasi.pos

def templateParts (r : Lowerers) : List TemplateElement → List Expr → LowerM (List NodeId)
  | [], _ => return []
  | quasi :: quasis, expressions => do
    let element ← templateElement quasi
    match expressions with
    | [] => return element :: (← templateParts r quasis [])
    | expression :: expressions =>
      let value ← r.expr none expression
      return element :: value :: (← templateParts r quasis expressions)

variable (r : Lowerers)

def lowerTemplate (quasis : List TemplateElement) (expressions : List Expr) (pos : Pos) : LowerM NodeId := do
  if quasis.length != expressions.length + 1 then
    malformed "TemplateLiteral" "quasis and expressions do not interleave" pos
  typed (.template (← templateParts r quasis expressions)) pos (some .string)

def lowerItem : Expr → LowerM ListItem
  | .spread argument _ => do return ⟨true, ← r.expr none argument⟩
  | other => do return ⟨false, ← r.expr none other⟩

def elementType (elements : List ListItem) : LowerM TypeDescriptor := do
  let types ← elements.mapM fun item => if item.spread then pure none else typeOf item.value
  match types.mapM id with
  | some [] | none => return .any
  | some known => return .unionOf known

def lowerArray (elements : List (Option Expr)) (pos : Pos) : LowerM NodeId := do
  let items ← elements.mapM fun
    | some element => lowerItem r element
    | none => do return ⟨false, ← synthetic .undefined pos⟩
  let type ← elementType items
  typed (.array items (items.any (·.spread))) pos (some (.array type))

def objectKey (key : Expr) (computed : Bool) : LowerM (NodeId × Option String) := do
  if computed then return (← r.expr none key, none)
  let name ← match key with
    | .identifier id => pure id.name
    | .literal lit => pure lit.key
    | other => unhandled (exprTypeName other) other.pos
  return (← typed (.string name) key.pos (some .string), some name)

def objectMember : Tree .objectMember → LowerM (NodeId × Option (String × TypeDescriptor))
  | .property key value role computed _ _ pos => do
    if role != .init then unhandled "ObjectAccessorProperty" pos
    let (key, name) ← objectKey r key computed
    let value ← r.expr name value
    let type ← typeOf value
    return (← node (.property key value computed) pos, do return (← name, ← type))
  | .spreadMember argument pos => do
    let argument ← r.expr none argument
    return (← node (.spread argument) pos, none)

def lowerObject (members : List (Tree .objectMember)) (pos : Pos) : LowerM NodeId := do
  let members ← members.mapM (objectMember r)
  let shape := Json.sortFields (members.filterMap (·.2))
  typed (.object (members.map (·.1))) pos (some (.object shape))

def operator (kind : String) (ofSymbol? : String → Option α) (symbol : String) (pos : Pos) : LowerM α :=
  match ofSymbol? symbol with
  | some operator => return operator
  | none => malformed kind ("unknown operator `" ++ symbol ++ "`") pos

def updateTarget (e : Expr) : LowerM NodeId :=
  match e.unparenthesized with
  | .identifier id => assignableIdentifier id.name id.pos
  | .memberExpr m => lowerMember r m
  | other => malformed "UpdateExpression" (exprTypeName other ++ " is not assignable") other.pos

/-- Forgets what is known about a variable unless a compound assignment keeps its type. -/
def noteUpdated (target : NodeId) (type : Option TypeDescriptor) : LowerM Unit := do
  match ← kindOf target with
  | some (.identifier _ (some binding)) =>
    if (← get).bindingTypes[binding]? != type then recordType binding none
  | _ => pure ()

def compoundTarget (symbol : String) : Pattern → LowerM NodeId
  | .idPattern id => assignableIdentifier id.name id.pos
  | .memberPattern m => lowerMember r m
  | other => malformed "AssignmentExpression" ("`" ++ symbol ++ "` cannot destructure") other.pos

def lowerAssignment (symbol : String) (target : Pattern) (value : Expr) (pos : Pos) : LowerM NodeId := do
  let op ← operator "AssignmentExpression" AssignmentOperator.ofSymbol? symbol pos
  if op = .assign then assignPattern r target value pos
  else
    let target ← compoundTarget r symbol target
    let value ← r.expr none value
    let type ← match op.binary? with
      | some binary => pure (binaryType binary (← typeOf target) (← typeOf value))
      | none => unionType target value
    noteUpdated target type
    typed (.assign op target value) pos type

def lowerCall (callee : Expr) (arguments : List Expr) (optional : Bool) (pos : Pos)
    (make : NodeId → List ListItem → Bool → Kind) : LowerM NodeId := do
  if optional then unhandled "OptionalCallExpression" pos
  let callee ← r.expr none callee
  let items ← arguments.mapM (lowerItem r)
  node (make callee items (items.any (·.spread))) pos

/-- Lowers an expression whose parts are lowered by `r`. -/
def lowerExpr (hint : Option String) : Expr → LowerM NodeId
  | .identifier id => lowerIdentifier id
  | .literal lit => lowerLiteral lit
  | .template quasis expressions pos => lowerTemplate r quasis expressions.toList pos
  | .thisExpr pos => node .thisExpr pos
  | .superExpr pos => node .superExpr pos
  | .array elements pos => lowerArray r (elements.toList.map Tree.toOption) pos
  | .object members pos => lowerObject r members.toList pos
  | .functionExpr f => functionExpression r hint f
  | .arrow params body isAsync pos => arrowFunction r hint params.toList body isAsync pos
  | .classExpr c => classExpression r hint c
  | .unary symbol argument _ pos => do
    let op ← operator "UnaryExpression" UnaryOperator.ofSymbol? symbol pos
    let argument ← r.expr none argument
    typed (.unary op argument) pos (some (unaryType op))
  | .update symbol argument before pos => do
    let op ← operator "UpdateExpression" UpdateOperator.ofSymbol? symbol pos
    let argument ← updateTarget r argument
    typed (.update op before argument) pos (some .number)
  | .binary symbol left right pos => do
    let op ← operator "BinaryExpression" BinaryOperator.ofSymbol? symbol pos
    let left ← r.expr none left
    let right ← r.expr none right
    typed (.binary op left right) pos (binaryType op (← typeOf left) (← typeOf right))
  | .logical symbol left right pos => do
    let op ← operator "LogicalExpression" LogicalOperator.ofSymbol? symbol pos
    let left ← r.expr none left
    let right ← r.expr none right
    typed (.logical op left right) pos (← unionType left right)
  | .assign symbol target value pos => lowerAssignment r symbol target value pos
  | .conditional test consequent alternate pos => do
    let test ← r.expr none test
    let consequent ← r.expr none consequent
    let alternate ← r.expr none alternate
    typed (.conditional test consequent alternate) pos (← unionType consequent alternate)
  | .call callee arguments optional pos => lowerCall r callee arguments.toList optional pos .call
  | .newExpr callee arguments optional pos => lowerCall r callee arguments.toList optional pos .newExpr
  | .memberExpr m => lowerMember r m
  | .sequence expressions pos => do
    let ids ← expressions.toList.mapM (r.expr none)
    let type ← match ids.getLast? with
      | some last => typeOf last
      | none => pure none
    typed (.sequence ids) pos type
  | .awaitExpr argument pos => do
    if !(← get).context.isAsync then
      malformed "AwaitExpression" "await outside of an async function" pos
    let argument ← r.expr none argument
    node (.awaitExpr argument) pos
  | .parenthesized expression _ => r.expr none expression
  | .spread _ pos => malformed "SpreadElement" "spread outside of an argument or element list" pos
  | .unsupportedExpr kind pos => unhandled kind.typeName pos

end LowerM

end Retarget
