import Retarget.Numeric.Intrinsic
import Retarget.Target.Module

/-!
# The layout of numeric programs

In the numeric targets every value is a double. The functions of a module at its top level become functions,
its variables there become globals, and all other statements there become an initializer. Parameters and
variables of a function are numbered in one row of local slots.
-/

namespace Retarget

inductive Slot where
  | local (index : Nat)
  | global (index : Nat)
  | function (index : Nat)
  deriving DecidableEq, Repr, Inhabited

def lastIndex? [BEq α] (a : α) (list : List α) : Option Nat :=
  match list with
  | [] => none
  | b :: more => ((lastIndex? a more).map (· + 1)).or (if a == b then some 0 else none)

structure NumericFunction where
  id : NodeId
  name : String
  params : List NodeId
  locals : List NodeId
  body : List NodeId
  deriving Repr, Inhabited

namespace NumericFunction

def slotCount (f : NumericFunction) : Nat := f.params.length + f.locals.length

def slot? (f : NumericFunction) (binding : NodeId) : Option Nat := lastIndex? binding (f.params ++ f.locals)

end NumericFunction

structure NumericPlan where
  functions : List NumericFunction
  globals : List (NodeId × String)
  init : Option NumericFunction

namespace NumericPlan

def initName : String := "__luascript_init"

/-- The declarators at most `fuel` levels under a node, outside of nested functions and classes. -/
def declaratorsWithin (m : Module) : (fuel : Nat) → NodeId → List NodeId
  | 0, _ => []
  | fuel + 1, id =>
    match m.kind? id with
    | none => []
    | some kind =>
      if kind.isFunctionLike then []
      else
        let inside := kind.children.flatMap (declaratorsWithin m fuel)
        match kind with
        | .declarator .. => id :: inside
        | _ => inside

def declarators (m : Module) (statements : List NodeId) : List NodeId :=
  (statements.flatMap (declaratorsWithin m m.levels)).eraseDups

structure Draft where
  errors : List BackendError := []
  functions : List NumericFunction := []
  globals : List (NodeId × String) := []
  initBody : List NodeId := []

def globalsOf (m : Module) (target : Target) (ids : List NodeId) : Except BackendError (List (NodeId × String)) := do
  let found ← ids.mapM fun id => do
    match (← m.find target id).kind with
    | .declarator name _ => return [(id, name)]
    | _ => return []
  return found.flatten

def Draft.add (m : Module) (target : Target) (d : Draft) (id : NodeId) : Except BackendError Draft := do
  let node ← m.find target id
  let refuse (reason : String) : Draft := { d with errors := d.errors ++ [node.unsupported target reason] }
  match node.kind with
  | .functionDecl f =>
    if f.isAsync then return refuse "async functions are not numeric"
    else if f.rest.isSome then return refuse "rest parameters need an array runtime"
    else
      let body ← m.statementsOf target f.body
      let name := f.name.getD ("fn" ++ toString node.id)
      return { d with functions := d.functions ++ [⟨id, name, f.params, declarators m body, body⟩] }
  | .variableDecl _ ids =>
    let globals ← globalsOf m target ids
    return { d with globals := d.globals ++ globals, initBody := d.initBody ++ [id] }
  | .empty => return d
  | _ => return { d with initBody := d.initBody ++ [id] }

def Draft.plan (m : Module) (d : Draft) : NumericPlan where
  functions := d.functions
  globals := d.globals
  init :=
    if d.initBody.isEmpty then none
    else
      let globals := d.globals.map (·.1)
      some ⟨0, initName, [], (declarators m d.initBody).filter (!globals.contains ·), d.initBody⟩

def ofModule (m : Module) (target : Target) : Except (List BackendError) NumericPlan :=
  match m.body.foldlM (Draft.add m target) {} with
  | .error e => .error [e]
  | .ok d => if d.errors.isEmpty then .ok (d.plan m) else .error d.errors

def resolve? (p : NumericPlan) (scope : NumericFunction) (binding : NodeId) : Option Slot :=
  ((scope.slot? binding).map .local).or <|
    ((lastIndex? binding (p.globals.map (·.1))).map .global).or <|
      (lastIndex? binding (p.functions.map (·.id))).map .function

def arity (p : NumericPlan) (index : Nat) : Nat := (p.functions[index]?).elim 0 (·.params.length)

end NumericPlan

structure NumericScope where
  module : Module
  plan : NumericPlan
  function : NumericFunction

namespace NumericScope

def slot? (s : NumericScope) (binding : Option NodeId) : Option Slot :=
  binding.bind (s.plan.resolve? s.function)

def slot (s : NumericScope) (target : Target) (node : Node) (binding : Option NodeId) : Except BackendError Slot :=
  match s.slot? binding with
  | some slot => .ok slot
  | none => .error (node.unsupported target "reference to a value outside the numeric subset")

end NumericScope

end Retarget
