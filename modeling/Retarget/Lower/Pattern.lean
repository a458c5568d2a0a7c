import Retarget.Lower.Declare

/-!
# Destructuring

A pattern is flattened into a temporary that holds the source value and one member access for each leaf. In a
declaration every step is a declarator; in an assignment every step is an expression, and the temporary comes
last so that the assignment keeps its value.
-/

namespace Retarget

open Syntax

namespace LowerM

def string (value : String) (pos : Pos) : LowerM NodeId := syntheticTyped (.string value) pos (some .string)

def number (value : Float) (pos : Pos) : LowerM NodeId := syntheticTyped (.number value) pos (some .number)

def assignment (target value : NodeId) : Kind := .assign .assign target value

def methodCall (object : NodeId) (method : String) (arguments : List NodeId) (pos : Pos) : LowerM NodeId := do
  let property ← string method pos
  let callee ← synthetic (.member object property false) pos
  synthetic (.call callee (arguments.map (⟨false, ·⟩)) false) pos

variable (r : Lowerers) (mode : BindingMode) (temp : Temp)

def lowerMember : Tree .member → LowerM NodeId
  | .member object property computed optional pos => do
    if optional then unhandled "OptionalMemberExpression" pos
    let object ← r.expr none object
    let (property, type) ← match computed, property with
      | true, property => do pure (← r.expr none property, none)
      | false, .identifier id => do
        let type := if id.name == "length" then some .number else none
        pure (← typed (.string id.name) id.pos (some .string), type)
      | false, other => unhandled (exprTypeName other) other.pos
    typed (.member object property computed) pos type

def assignableIdentifier (name : String) (pos : Pos) : LowerM NodeId := do
  let binding ← resolve? name
  let constants := (← get).constants
  if binding.any (decide <| · ∈ constants) then
    malformed "AssignmentExpression" ("assignment to constant `" ++ name ++ "`") pos
  node (.identifier name binding) pos

def noteAssigned (target value : NodeId) : LowerM Unit := do
  match ← kindOf target with
  | some (.identifier _ (some binding)) =>
    let known := (← get).bindingTypes[binding]?
    if known.isSome && known != (← typeOf value) then recordType binding none
  | _ => pure ()

def bindTemp (value : NodeId) (pos : Pos) : LowerM (Temp × NodeId) := do
  match mode with
  | .declare _ =>
    let name ← freshName "tmp"
    let type ← typeOf value
    let id ← synthetic (.declarator name (some value)) pos
    recordType id type
    return (⟨name, id⟩, id)
  | .assign =>
    let temp ← pendingTemp pos
    let target ← useTemp temp pos
    let step ← synthetic (assignment target value) pos
    return (temp, step)

def bindLeaf (id : Identifier) (value : NodeId) : LowerM NodeId := do
  match mode with
  | .declare kind => declareName id.name (some value) kind id.pos
  | .assign =>
    let target ← assignableIdentifier id.name id.pos
    noteAssigned target value
    synthetic (assignment target value) id.pos

def isUndefined (pos : Pos) : LowerM NodeId := do
  let tested ← useTemp temp pos
  let undefined ← synthetic .undefined pos
  synthetic (.binary .strictEq tested undefined) pos

/-- The value, or the default if it is undefined; the step that holds the value comes with it. -/
def defaultValue (value : NodeId) (fallback : Expr) (pos : Pos) : LowerM (NodeId × NodeId) := do
  let (temp, step) ← bindTemp mode value pos
  let test ← isUndefined temp pos
  let fallback ← r.expr none fallback
  let current ← useTemp temp pos
  let type ← unionType fallback current
  return (← syntheticTyped (.conditional test fallback current) pos type, step)

inductive PatternKey where
  | name (text : String)
  | index (i : Nat)
  | computed (key : NodeId)
  | held (temp : Temp)
  deriving DecidableEq, Repr

def patternKey (key : Expr) (computed : Bool) : LowerM PatternKey := do
  if computed then return .computed (← r.expr none key)
  match key with
  | .identifier id => return .name id.name
  | .literal lit => return .name lit.key
  | other => malformed "ObjectPattern" ("unsupported key " ++ exprTypeName other) other.pos

def memberAccess (key : PatternKey) (pos : Pos) : LowerM NodeId := do
  let object ← useTemp temp pos
  let (property, computed) ← match key with
    | .name text => do pure (← string text pos, false)
    | .index i => do pure (← number i.toFloat pos, true)
    | .computed key => pure (key, true)
    | .held temp => do pure (← useTemp temp pos, true)
  synthetic (.member object property computed) pos

/-- A copy of an object without the properties taken before, and the steps that it needs. -/
def objectRest (excluded : List PatternKey) (pos : Pos) : LowerM (NodeId × List NodeId) := do
  let object ← synthetic (.identifier "Object" (← resolve? "Object")) pos
  let empty ← synthetic (.object []) pos
  let source ← useTemp temp pos
  let copy ← methodCall object "assign" [empty, source] pos
  if excluded.isEmpty then return (copy, [])
  let (rest, step) ← bindTemp mode copy pos
  let deletions ← excluded.mapM fun key => do
    let access ← memberAccess rest key pos
    synthetic (.unary .delete access) pos
  let result ← useTemp rest pos
  return (← synthetic (.sequence (deletions ++ [result])) pos, [step])

def takesRest : Tree .patternMember → Bool
  | .patternRest .. => true
  | .patternProperty .. => false

/-- A key that is needed again for the rest, evaluated once; the step that does so comes with it. -/
def holdKey (needed : Bool) (key : PatternKey) (pos : Pos) : LowerM (PatternKey × List NodeId) := do
  match key, needed with
  | .computed key, true =>
    let (temp, step) ← bindTemp mode key pos
    return (.held temp, [step])
  | key, _ => return (key, [])

def PatternKey.isReusable : PatternKey → Bool
  | name _ | held _ => true
  | index _ | computed _ => false

/-- The steps of the members of an object pattern, after the properties `excluded` have been taken. -/
def destructureMembers (r : Lowerers) (mode : BindingMode) (temp : Temp) (hasRest : Bool) :
    (excluded : List PatternKey) → List (Tree .patternMember) → LowerM (List NodeId)
  | _, [] => return []
  | excluded, .patternProperty key value computed _ pos :: more => do
    let key ← patternKey r key computed
    let (key, holding) ← holdKey mode hasRest key pos
    let access ← memberAccess temp key pos
    let (steps, _) ← r.destructure mode value access
    let excluded := if key.isReusable then excluded ++ [key] else excluded
    let others ← destructureMembers r mode temp hasRest excluded more
    return holding ++ steps ++ others
  | excluded, .patternRest argument pos :: more => do
    let (collected, copying) ← objectRest mode temp excluded pos
    let (steps, _) ← r.destructure mode argument collected
    let others ← destructureMembers r mode temp hasRest excluded more
    return copying ++ steps ++ others

def destructureElements (r : Lowerers) (mode : BindingMode) (temp : Temp) :
    (index : Nat) → List (Option Pattern) → LowerM (List NodeId)
  | _, [] => return []
  | index, none :: more => destructureElements r mode temp (index + 1) more
  | index, some (.restPattern argument pos) :: more => do
    let object ← useTemp temp pos
    let start ← number index.toFloat pos
    let sliced ← methodCall object "slice" [start] pos
    let (steps, _) ← r.destructure mode argument sliced
    return steps ++ (← destructureElements r mode temp (index + 1) more)
  | index, some element :: more => do
    let access ← memberAccess temp (.index index) element.pos
    let (steps, _) ← r.destructure mode element access
    return steps ++ (← destructureElements r mode temp (index + 1) more)

def destructurePattern (pattern : Pattern) (value : NodeId) : LowerM (List NodeId × Option Temp) := do
  match pattern with
  | .idPattern id => return ([← bindLeaf mode id value], none)
  | .memberPattern m =>
    if mode != .assign then malformed "VariableDeclarator" "member expressions cannot be declared" m.pos
    let target ← lowerMember r m
    return ([← synthetic (assignment target value) m.pos], none)
  | .defaultPattern target fallback pos =>
    let (value, step) ← defaultValue r mode value fallback pos
    let (steps, temp) ← r.destructure mode target value
    return (step :: steps, temp)
  | .objectPattern members pos =>
    let (temp, step) ← bindTemp mode value pos
    let hasRest := members.toList.any takesRest
    let steps ← destructureMembers r mode temp hasRest [] members.toList
    return (step :: steps, some temp)
  | .arrayPattern elements pos =>
    let (temp, step) ← bindTemp mode value pos
    let steps ← destructureElements r mode temp 0 (elements.toList.map Tree.toOption)
    return (step :: steps, some temp)
  | .restPattern _ pos => malformed "RestElement" "rest element outside of a pattern list" pos

def assignLowered (pattern : Pattern) (value : NodeId) (pos : Pos) : LowerM NodeId := do
  let (steps, temp) ← r.destructure .assign pattern value
  let result ← match temp with
    | some temp => do pure [← useTemp temp pos]
    | none => pure []
  match steps ++ result with
  | [expression] => return expression
  | expressions => synthetic (.sequence expressions) pos

def assignPattern (target : Pattern) (value : Expr) (pos : Pos) : LowerM NodeId := do
  match target with
  | .idPattern id =>
    let value ← r.expr (some id.name) value
    let target ← assignableIdentifier id.name id.pos
    noteAssigned target value
    typed (assignment target value) pos (← typeOf value)
  | .memberPattern m =>
    let value ← r.expr none value
    let target ← lowerMember r m
    typed (assignment target value) pos (← typeOf value)
  | pattern =>
    let value ← r.expr none value
    assignLowered r pattern value pos

def declareLowered (pattern : Pattern) (value : NodeId) (kind : DeclarationKind) : LowerM NodeId := do
  let (steps, _) ← r.destructure (.declare kind) pattern value
  synthetic (.variableDecl kind steps) pattern.pos

def lexicalDeclarator (kind : DeclarationKind) : Tree .declarator → LowerM (List NodeId)
  | .declarator (.idPattern id) init pos => do
    if init.toOption.isNone && kind = .constKind then
      malformed "VariableDeclaration" ("const `" ++ id.name ++ "` has no initializer") pos
    let init ← init.toOption.mapM (r.expr (some id.name))
    return [← declareName id.name init kind pos]
  | .declarator pattern (.present init) _ => do
    let value ← r.expr none init
    let (steps, _) ← r.destructure (.declare kind) pattern value
    return steps
  | .declarator pattern .absent _ =>
    malformed "VariableDeclaration" "destructuring declaration has no initializer" pattern.pos

/-- A declaration by `let` or `const`. -/
def lexicalDeclaration : Tree .declaration → LowerM NodeId
  | .declaration kind declarators pos => do
    let steps ← declarators.toList.mapM (lexicalDeclarator r kind)
    node (.variableDecl kind steps.flatten) pos

/-- The assignments that the declarators of a `var` declaration become. -/
def varAssignments (declarators : List (Tree .declarator)) : LowerM (List NodeId) := do
  let assignments ← declarators.mapM fun
    | .declarator target (.present init) pos => do return [← assignPattern r target init pos]
    | .declarator _ .absent _ => return []
  return assignments.flatten

end LowerM

end Retarget
