import Retarget.Builder.Basic
import Retarget.Lower.Error
import Retarget.Lower.Scope
import Retarget.Syntax.Basic

/-!
# Lowering

`LowerM` is a computation that builds a module: it can fail, and it carries the builder, the scopes around
the place at hand, what jumps may refer to there, and what is known about the declared variables.
-/

namespace Retarget

open Syntax

/-- What `return`, `await`, `break` and `continue` may refer to. -/
structure FunctionContext where
  inFunction : Bool := false
  isAsync : Bool := false
  loopDepth : Nat := 0
  switchDepth : Nat := 0
  deriving DecidableEq, Repr, Inhabited

/-- The state of a lowering. Nothing reads `reservations`, the ids that have been reserved up to now. -/
structure LowerState where
  fileId : Nat := 0
  builder : Builder := {}
  scopes : ScopeStack := {}
  context : FunctionContext := {}
  outer : List FunctionContext := []
  pendingTemps : List NodeId := []
  tempCounter : Nat := 0
  constants : IdSet := ∅
  bindingTypes : IdMap TypeDescriptor := ∅
  reservations : IdSet := ∅

abbrev LowerM := StateT LowerState (Except LoweringError)

structure Temp where
  name : String
  id : NodeId
  deriving DecidableEq, Repr

namespace LowerM

def span (pos : Pos) : LowerM (Option Span) := do return pos.span? (← get).fileId

def unhandled (kind : String) (pos : Pos) : LowerM α := do throw (.unhandled kind (← span pos))

def malformed (kind cause : String) (pos : Pos) : LowerM α := do
  throw (.malformed kind cause (← span pos))

def build (f : Builder → Except BuilderError (α × Builder)) : LowerM α := fun s =>
  match f s.builder with
  | .ok (a, b) => .ok (a, { s with builder := b })
  | .error e => .error (.builder e)

variable (name : String) (id : NodeId) (kind : Kind)

def create (e : Envelope) : LowerM NodeId := build (·.create kind e)

def typed (pos : Pos) (type : Option TypeDescriptor) : LowerM NodeId := do
  create kind { span := ← span pos, type := type }

def node (pos : Pos) : LowerM NodeId := typed kind pos none

def syntheticTyped (pos : Pos) (type : Option TypeDescriptor) : LowerM NodeId := do
  create kind { span := ← span pos, type := type, synthetic := true }

def synthetic (pos : Pos) : LowerM NodeId := syntheticTyped kind pos none

def fill (pos : Pos) : LowerM Unit := do
  let span ← span pos
  build fun b => do return ((), ← b.fill id kind { span := span })

def reserve : LowerM NodeId := do
  let id ← build (·.reserve)
  modify fun s => { s with reservations := s.reservations.insert id }
  return id

def setType (type : Option TypeDescriptor) : LowerM Unit :=
  build fun b => do return ((), ← b.setType id type)

def typeOf : LowerM (Option TypeDescriptor) := do
  return ((← get).builder.node? id).bind (·.type)

def kindOf : LowerM (Option Kind) := do return (← get).builder.kind? id

def unionType (a b : NodeId) : LowerM (Option TypeDescriptor) := do
  match ← typeOf a, ← typeOf b with
  | some a, some b => return some (.unionOf [a, b])
  | _, _ => return none

def freshName (stem : String) : LowerM String := do
  let n := (← get).tempCounter
  modify fun s => { s with tempCounter := n + 1 }
  return "__" ++ stem ++ toString n

def bindName : LowerM Unit :=
  modify fun s => { s with scopes := s.scopes.add name id }

def bindInFunction : LowerM Unit :=
  modify fun s => { s with scopes := s.scopes.addToFunction name id }

def resolve? : LowerM (Option NodeId) := do return (← get).scopes.resolve? name

def reserved? : LowerM (Option NodeId) := do
  let s ← get
  return (s.scopes.local? name).filter s.builder.isReserved

def inScope (action : LowerM α) : LowerM α := do
  modify fun s => { s with scopes := s.scopes.push .block }
  let a ← action
  modify fun s => { s with scopes := s.scopes.pop }
  return a

def inLoop (action : LowerM α) : LowerM α := do
  modify fun s => { s with context.loopDepth := s.context.loopDepth + 1 }
  let a ← action
  modify fun s => { s with context.loopDepth := s.context.loopDepth - 1 }
  return a

def inSwitch (action : LowerM α) : LowerM α := inScope do
  modify fun s => { s with context.switchDepth := s.context.switchDepth + 1 }
  let a ← action
  modify fun s => { s with context.switchDepth := s.context.switchDepth - 1 }
  return a

def enterFunction (isAsync : Bool) : LowerM Unit :=
  modify fun s => { s with
    context := { inFunction := true, isAsync := isAsync }
    outer := s.context :: s.outer
    scopes := s.scopes.push .function }

def leaveFunction : LowerM Unit :=
  modify fun s =>
    let s := { s with scopes := s.scopes.pop }
    match s.outer with
    | [] => s
    | context :: outer => { s with context := context, outer := outer }

def swapPending (temps : List NodeId) : LowerM (List NodeId) := do
  let old := (← get).pendingTemps
  modify fun s => { s with pendingTemps := temps }
  return old

def inFunction (isAsync : Bool) (action : LowerM α) : LowerM α := do
  let saved ← swapPending []
  enterFunction isAsync
  let a ← action
  leaveFunction
  let _ ← swapPending saved
  return a

def syntheticIdent (binding : NodeId) (pos : Pos) : LowerM NodeId := do
  let type := (← get).bindingTypes[binding]?
  syntheticTyped (.identifier name (some binding)) pos type

def useTemp (temp : Temp) (pos : Pos) : LowerM NodeId := syntheticIdent temp.name temp.id pos

def pendingTemp (pos : Pos) : LowerM Temp := do
  let name ← freshName "tmp"
  let id ← synthetic (.declarator name none) pos
  modify fun s => { s with pendingTemps := s.pendingTemps ++ [id] }
  return ⟨name, id⟩

/-- The declaration of the pending temporaries, if there are any; `saved` become the pending ones. -/
def takePending (saved : List NodeId) (pos : Pos) : LowerM (Option NodeId) := do
  let temps ← swapPending saved
  if temps.isEmpty then return none
  return some (← synthetic (.variableDecl .letKind temps) pos)

def recordType (binding : NodeId) (type : Option TypeDescriptor) : LowerM Unit :=
  modify fun s =>
    { s with
      bindingTypes := match type with
        | some type => s.bindingTypes.insert binding type
        | none => s.bindingTypes.erase binding }

def addConstant : LowerM Unit :=
  modify fun s => { s with constants := s.constants.insert id }

end LowerM

end Retarget
