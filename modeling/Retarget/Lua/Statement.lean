import Retarget.Lua.Value

/-!
# Statements in Lua

A `continue` is a jump to a label after the body of its loop, a `try` is a protected call, and a `switch` is a
loop that runs once, so that `break` leaves it.
-/

namespace Retarget.Lua.Gen

def annotation (node : Node) : Gen (List Stmt) := do
  match (← read).debugInfo && !node.synthetic, node.span with
  | true, some span => return [.simple (.comment ("line " ++ toString span.start.line))]
  | _, _ => return []

variable (r : Generators) (here : Place) (id : NodeId)

def declarator : Gen (List Stmt) := do
  let node ← node id
  match node.kind with
  | .declarator name init =>
    let name := nameOf name
    let declared := decide (id ∈ (← get).declared)
    match init with
    | none => return if declared then [] else [.locals [name]]
    | some init =>
      let isFunction := (← Gen.node init).kind.isFunctionLike
      let value ← r.expr here init
      let setting := Stmt.assign (.name name) value
      if declared then return [setting]
      else if isFunction then return [.locals [name], setting]
      else return [.localValue name value]
  | _ => unsupported node "expected a VariableDeclarator"

def needsLabel (job : Job) (body : NodeId) : Bool :=
  job.options.version = .v54 &&
    job.module.scan (· == .continueStmt) (fun kind => kind.isLoop || kind.isFunctionLike) body

def loopBody (update : Option NodeId) : Gen (List Stmt) := do
  let label ← if needsLabel (← read) id then some <$> fresh "continue_" else pure none
  let here := here.deeper
  let inside := { here with targets := .loop label here.tryDepth :: here.targets }
  let steps ← match label with
    | some label => do
      let steps ← body r inside.deeper id
      pure [.doBlock steps, .simple (.label label)]
    | none => body r inside id
  match update with
  | some update => return steps ++ (← r.effect here update)
  | none => return steps

def breakStatement (node : Node) (last : Bool) : Gen (List Stmt) := do
  match here.targets with
  | .loop _ tryDepth :: _ | .switch tryDepth :: _ =>
    if tryDepth != here.tryDepth then unsupported node "break out of a try block"
    return [if last then .simple .breakLoop else .doLine .breakLoop]
  | [] => unsupported node "break outside of a loop or switch"

def innermostLoop? : List JumpTarget → Option (Option String × Nat)
  | [] => none
  | .loop label tryDepth :: _ => some (label, tryDepth)
  | .switch _ :: more => innermostLoop? more

def continueStatement (node : Node) : Gen (List Stmt) := do
  if (← read).options.version = .v51 then
    unsupported node "continue needs goto, which Lua 5.1 lacks"
  match innermostLoop? here.targets with
  | some (some label, tryDepth) =>
    if tryDepth = here.tryDepth then return [.simple (.goto label)]
    else unsupported node "continue out of a try block"
  | some (none, _) => unsupported node "continue out of a try block"
  | none => unsupported node "continue outside of a loop"

/-- A return. Inside a protected call the value is put into a table, so that a returned `nil` differs from
reaching the end. -/
def returnStatement (argument : Option NodeId) (last : Bool) : Gen (List Stmt) := do
  let value ← argument.mapM (r.expr here)
  let result : Simple :=
    if here.tryDepth = 0 then .ret value.toList else .ret [.list [value.getD .nil]]
  return [if last then .simple result else .doLine result]

def alternate (r : Generators) (here : Place) : (fuel : Nat) → Option NodeId → Gen Alternate
  | _, none => return .none
  | 0, some id => throw (.cyclic .lua id)
  | fuel + 1, some id => do
    let node ← node id
    match node.kind with
    | .ifStmt test consequent next =>
      let test ← r.expr here test
      let body ← Gen.body r here.deeper consequent
      return .elseIf test body (← alternate r here fuel next)
    | _ => return .otherwise (← Gen.body r here.deeper node.id)

def ifStatement (test consequent : NodeId) (next : Option NodeId) : Gen (List Stmt) := do
  let test ← r.expr here test
  let body ← Gen.body r here.deeper consequent
  return [.ifBlock test body (← alternate r here (← read).module.levels next)]

def forStatement (init test update : Option NodeId) (id : NodeId) : Gen (List Stmt) := do
  let inside := here.deeper
  let before ← match init with
    | some init => do
      match (← Gen.node init).kind with
      | .variableDecl .. => r.stmt inside false init
      | _ => r.effect inside init
    | none => pure []
  let test ← match test with
    | some test => r.expr inside test
    | none => pure (.bool true)
  let body ← loopBody r inside id update
  return [.doBlock (before ++ [.whileLoop test body])]

def catchClause (ok result : Expr) (id : NodeId) : Gen Stmt := do
  let node ← node id
  match node.kind with
  | .catchClause param bodyId =>
    let binding ← match param with
      | some param => do pure [Stmt.localValue (← declaredName param) result]
      | none => pure []
    return .ifThen ok.negated (binding ++ (← body r here.deeper bodyId))
  | _ => unsupported node "expected a CatchClause"

def returns (m : Module) (id : NodeId) : Bool :=
  m.scan (fun | .returnStmt _ => true | _ => false) Kind.isFunctionLike id

def tryStatement (blockId : NodeId) (handler finalizer : Option NodeId) : Gen (List Stmt) := do
  let n ← fresh ""
  let ok := Expr.name ("__ok" ++ n)
  let result := Expr.name ("__res" ++ n)
  let inside := here.deeper
  let steps ← body r { inside.deeper with tryDepth := here.tryDepth + 1 } blockId
  let protect : Stmt := .simple (.local ["__ok" ++ n, "__res" ++ n]
    [.callName "pcall" [.function inside.level [] steps]])
  let handling ← match handler with
    | some handler => do pure [← catchClause r inside ok result handler]
    | none => pure []
  let finishing ← match finalizer with
    | some finalizer => do pure [Stmt.doBlock (← body r inside.deeper finalizer)]
    | none => pure []
  let rethrow := if handler.isSome then []
    else [Stmt.ifLine ok.negated (.call (.callName "error" [result, .number 0]))]
  let value := if here.tryDepth = 0 then .index result (.number 1) else result
  let passing := if returns (← read).module blockId then
      [Stmt.ifLine (.binary .and ok (.binary .ne result .nil)) (.ret [value])]
    else []
  return [.doBlock (protect :: handling ++ finishing ++ rethrow ++ passing)]

/-- An arm of a switch: its test, unless it is the default, and its statements. -/
abbrev Arm := Option Expr × List NodeId

def arm : Gen Arm := do
  let node ← node id
  match node.kind with
  | .switchCase test consequent => return (← test.mapM (operand r here), consequent)
  | _ => unsupported node "expected a SwitchCase"

def hitDeclaration (switched : Expr) (hit : String) (arms : List Arm) : List Stmt :=
  if arms.any (·.1.isNone) then
    let tests := arms.filterMap fun (test, _) => test.map (.binary .eq switched)
    [.localValue hit (match tests with
      | [] => .bool false
      | first :: more => .joined .or first more)]
  else []

/-- A switch. A flag tells whether an earlier arm falls through, and the default runs if no case matches. -/
def switchStatement (discriminant : NodeId) (cases : List NodeId) : Gen (List Stmt) := do
  let n ← fresh ""
  let switched := Expr.name ("__sw" ++ n)
  let through := Expr.name ("__ft" ++ n)
  let hit := "__hit" ++ n
  let arms ← cases.mapM (arm r here)
  let inside := here.deeper
  let value ← r.expr inside discriminant
  let armPlace := { inside.deeper with targets := .switch here.tryDepth :: here.targets }
  let branches ← arms.mapM fun (test, consequent) => do
    let test := match test with
      | some test => Expr.binary .eq switched test
      | none => (Expr.name hit).negated
    let steps ← block r armPlace consequent
    return Stmt.ifThen (.binary .or through test) (.assign through (.bool true) :: steps)
  return [.repeatUntil
    ([.localValue ("__sw" ++ n) value, .localValue ("__ft" ++ n) (.bool false)] ++
      hitDeclaration switched hit arms ++ branches)
    (.bool true)]

/-- Generates a statement whose parts are generated by `r`, without the comment before it. -/
def statement (r : Generators) (here : Place) (last : Bool) (node : Node) (id : NodeId) : Gen (List Stmt) := do
  match node.kind with
  | .exprStmt expression => r.effect here expression
  | .variableDecl _ declarations => return (← declarations.mapM (declarator r here)).flatten
  | .functionDecl _ => functionDeclaration r here true id
  | .classDecl c =>
    let isLocal := decide (id ∉ (← get).declared)
    return (← classStatements r here c isLocal).2
  | .block body => return [.doBlock (← block r here.deeper body)]
  | .empty => return []
  | .ifStmt test consequent next => ifStatement r here test consequent next
  | .forStmt init test update body => forStatement r here init test update body
  | .forEach iterate binding iterable body =>
    let name ← declaredName binding
    let iterable ← r.expr here iterable
    let body ← loopBody r here body none
    match iterate with
    | .values => return [.forIn ["_", name] (.callName "ipairs" [iterable]) body]
    | .keys => return [.forIn [name] (.callName "pairs" [iterable]) body]
  | .whileStmt test body =>
    let test ← r.expr here test
    return [.whileLoop test (← loopBody r here body none)]
  | .doWhile body test =>
    let body ← loopBody r here body none
    let test ← r.expr here test
    return [.repeatUntil body (.unary .not (.paren test))]
  | .breakStmt => breakStatement here node last
  | .continueStmt => continueStatement here node
  | .returnStmt argument => returnStatement r here argument last
  | .throwStmt argument =>
    return [.call (.callName "error" [← r.expr here argument, .number 0])]
  | .tryStmt body handler finalizer => tryStatement r here body handler finalizer
  | .switchStmt discriminant cases => switchStatement r here discriminant cases
  | _ => unsupported node "not a statement"

def stmt (last : Bool) (id : NodeId) : Gen (List Stmt) := do
  let node ← node id
  let comment ← annotation node
  return comment ++ (← statement r here last node id)

end Retarget.Lua.Gen
