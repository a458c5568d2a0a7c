import Retarget.Lua.Helper
import Retarget.Target.Module

/-!
# Generating Lua

`Gen` is a computation that generates a part of a program. What it needs to know about the place it generates
for is in a `Place`, and what it gathers on the way is kept even if it fails: a problem is recorded with the
statement it arises in, and the statements after it are generated all the same.
-/

namespace Retarget.Lua

structure Job where
  module : Module
  options : LuaOptions := {}
  debugInfo : Bool := false

/-- What `break` and `continue` can leave, with the number of protected calls around it. -/
inductive JumpTarget where
  | loop (label : Option String) (tryDepth : Nat)
  | switch (tryDepth : Nat)
  deriving DecidableEq, Repr

structure Place where
  level : Nat := 0
  tryDepth : Nat := 0
  targets : List JumpTarget := []
  parent : Option Expr := none

def Place.deeper (here : Place) : Place := { here with level := here.level + 1 }

def Place.inFunction (here : Place) : Place := { level := here.level, parent := here.parent }

structure Progress where
  errors : List BackendError := []
  helpers : List Helper := []
  counter : Nat := 0
  declared : IdSet := ∅

abbrev Gen := ReaderT Job (ExceptT BackendError (StateM Progress))

namespace Gen

def node (id : NodeId) : Gen Node := do
  match (← read).module.find .lua id with
  | .ok node => return node
  | .error e => throw e

def unsupported (node : Node) (reason : String) : Gen α := throw (node.unsupported .lua reason)

def fresh (stem : String) : Gen String := do
  let n := (← get).counter + 1
  modify fun s => { s with counter := n }
  return stem ++ toString n

def callHelper (h : Helper) (arguments : List Expr) : Gen Expr := do
  modify fun s => { s with helpers := h :: s.helpers }
  return .callName h.name arguments

def report (e : BackendError) : Gen Unit := modify fun s => { s with errors := s.errors ++ [e] }

def orReport (action : Gen (List Stmt)) : Gen (List Stmt) :=
  tryCatch action fun e => do
    report e
    return []

def unpack : Gen Expr := do
  match (← read).options.version with
  | .v54 => return .field (.name "table") "unpack"
  | .v51 => return .name "unpack"

def propertyName (id : NodeId) : Gen String := do
  let node ← node id
  match node.kind with
  | .string value => return value
  | _ => unsupported node "expected a property name"

def declaredName (id : NodeId) : Gen String := do
  let node ← node id
  match node.kind with
  | .declarator name _ | .parameter name => return nameOf name
  | _ => unsupported node "expected a binding"

def hasType (id : NodeId) (literal : Kind → Bool) (type : TypeDescriptor → Bool) : Gen Bool := do
  return ((← read).module.node? id).any fun node => literal node.kind || node.type.any type

def isString (id : NodeId) : Gen Bool :=
  hasType id (fun | .string _ | .template _ => true | _ => false) (·.isString)

def isNumber (id : NodeId) : Gen Bool :=
  hasType id (fun | .number _ => true | _ => false) (·.isNumber)

def parent (here : Place) (node : Node) : Gen Expr :=
  match here.parent with
  | some parent => return parent
  | none => unsupported node "super outside of a derived class"

end Gen

/-- How the parts of a program that can be nested in themselves are generated. -/
structure Generators where
  expr : Place → NodeId → Gen Expr
  effect : Place → NodeId → Gen (List Stmt)
  /-- A statement; `last` says that nothing follows it in its block. -/
  stmt : Place → (last : Bool) → NodeId → Gen (List Stmt)
  functionDecl : Place → (isLocal : Bool) → NodeId → Gen (List Stmt)

end Retarget.Lua
