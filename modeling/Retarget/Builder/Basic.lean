import Retarget.Builder.Error
import Retarget.Module.Basic

/-!
# The builder

A `Builder` holds a program while it is made or edited. Ids are given out in ascending order. Every
reference is checked when a node is stored: its target has to exist and be of the category that the field
asks for, or be reserved for a node that is stored later.

Operations are computations of `BuildM`, which keep what they have done to the builder when they fail. Seen from
outside, as `Builder.create` and its like, an operation gives an error or its answer and the new builder.
-/

namespace Retarget

structure Envelope where
  span : Option Span := none
  type : Option TypeDescriptor := none
  synthetic : Bool := false
  deriving DecidableEq, Repr, Inhabited

structure Builder where
  nodes : NodeTable := ∅
  reserved : IdSet := ∅
  nextId : NodeId := 1
  body : List NodeId := []
  source : Option String := none
  directives : List String := []

namespace Builder

def idLimit : NodeId := 0xffffffff

/-- An empty builder whose first id is `seed`. -/
def withSeed (seed : NodeId) : Builder := { nextId := seed }

def ofModule (m : Module) : Builder where
  nodes := m.nodes
  nextId := match m.nodes.maxKey? with
    | some id => min (id + 1) idLimit
    | none => 1
  body := m.body
  source := m.metadata.source
  directives := m.metadata.directives

variable (b : Builder) (id : NodeId) (kind : Kind)

def node? : Option Node := b.nodes[id]?

def kind? : Option Kind := b.nodes.kind? id

def scalarError? : Option BuilderError :=
  match kind with
  | .number value =>
    if value.isFinite then none else some (.invalidNode kind.name "numeric literals must be finite")
  | .identifier name _ | .parameter name | .declarator name _ =>
    if name == "" then some (.invalidNode kind.name "name must not be empty") else none
  | .classDecl c | .classExpr c =>
    if c.name == "" then some (.invalidNode kind.name "class name must not be empty") else none
  | _ => none

/-- What is wrong with a reference of the node `id`. -/
def referenceError? (r : Reference) : Option BuilderError :=
  if r.target == id then
    some (.invalidNode kind.name ("`" ++ r.field ++ "` refers to the node itself"))
  else
    match b.nodes[r.target]? with
    | some target =>
      if r.category.admits target.kind then none
      else some (.shapeMismatch kind.name r.field r.category target.kind.name r.target)
    | none =>
      if r.target ∈ b.reserved then none
      else some (.danglingReference kind.name r.field r.target)

/-- The first thing that is wrong with a node of this kind under the id `id`. -/
def kindError? : Option BuilderError :=
  (scalarError? kind).or (kind.references.findSome? (b.referenceError? id kind))

def check : Except BuilderError Unit :=
  match b.kindError? id kind with
  | some error => .error error
  | none => .ok ()

def store (e : Envelope) : Builder :=
  { b with nodes := b.nodes.insert id ⟨id, kind, e.span, e.type, e.synthetic⟩ }

def isReserved : Bool := decide (id ∈ b.reserved)

end Builder

/-- Operations on a builder. What an operation has done before it fails stays done. -/
abbrev BuildM := EStateM BuilderError Builder

namespace BuildM

variable (id : NodeId) (kind : Kind)

def check : BuildM Unit := do
  match (← get).check id kind with
  | .ok () => pure ()
  | .error error => throw error

/-- Gives out the next id. The counter only moves on if there is another id. -/
def next : BuildM NodeId := do
  let id := (← get).nextId
  if id < Builder.idLimit then modify fun b => { b with nextId := id + 1 } else throw .idsExhausted
  return id

def create (e : Envelope := {}) : BuildM NodeId := do
  check (← get).nextId kind
  let id ← next
  modify (·.store id kind e)
  return id

def reserve : BuildM NodeId := do
  let id ← next
  modify fun b => { b with reserved := b.reserved.insert id }
  return id

/-- Stores the node of a reserved id. -/
def fill (e : Envelope := {}) : BuildM Unit := do
  let b ← get
  unless b.isReserved id do throw (if id ∈ b.nodes then .alreadyDefined id else .unknownNode id)
  check id kind
  modify fun b => { b with reserved := b.reserved.erase id }
  modify (·.store id kind e)

/-- Changes the node with an id. -/
def update (change : Node → Node) : BuildM Unit := do
  match (← get).nodes[id]? with
  | some node => modify fun b => { b with nodes := b.nodes.insert id (change node) }
  | none => throw (.unknownNode id)

def replace : BuildM Unit := do
  check id kind
  update id ({ · with kind := kind })

def setType (type : Option TypeDescriptor) : BuildM Unit := update id ({ · with type := type })

end BuildM

namespace Builder

variable (b : Builder) (id : NodeId) (kind : Kind)

/-- The answer of an operation and the builder after it, or its error alone. -/
def perform {α : Type} (operation : BuildM α) : Except BuilderError (α × Builder) :=
  match operation.run b with
  | .ok answer b' => .ok (answer, b')
  | .error error _ => .error error

def create (e : Envelope := {}) : Except BuilderError (NodeId × Builder) := b.perform (BuildM.create kind e)

def reserve : Except BuilderError (NodeId × Builder) := b.perform BuildM.reserve

def fill (e : Envelope := {}) : Except BuilderError Builder := (·.2) <$> b.perform (BuildM.fill id kind e)

def replace : Except BuilderError Builder := (·.2) <$> b.perform (BuildM.replace id kind)

def setType (type : Option TypeDescriptor) : Except BuilderError Builder :=
  (·.2) <$> b.perform (BuildM.setType id type)

def pushStatement : Builder := { b with body := b.body ++ [id] }

def setBody (body : List NodeId) : Builder := { b with body := body }

def setSource (name : String) : Builder := { b with source := some name }

def addDirective (text : String) : Builder :=
  { b with directives := b.directives ++ [text] }

def targets : List NodeId :=
  match b.nodes[id]? with
  | some node => node.kind.references.map (·.target)
  | none => []

/-- The ids that can be reached from the top-level statements and the reserved ids by references. -/
def live : IdSet :=
  Reach.within (b.nodes.size + 1) b.targets (b.body ++ b.reserved.toList)

def pruneUnreachable : Nat × Builder :=
  let live := b.live
  let kept := b.nodes.filter fun id _ => decide (id ∈ live)
  (b.nodes.size - kept.size, { b with nodes := kept })

end Builder

end Retarget
